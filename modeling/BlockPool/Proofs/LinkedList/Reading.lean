import BlockPool.LinkedList.Edit
import BlockPool.Proofs.LinkedList.Links

/-!
# Reading a list

A list carries the entries that its links lead through, from the head to an
end.  All queries then answer from the entries, and what an edit looks for is
found where the entries have it.  A list holds its entries if, besides, they
are the nodes that it has made, each in a block of its size.
-/

namespace BlockPool.LinkedList

variable {l : LinkedList} {config : Config} {heap : Heap} {cells : List Cell}
  {entries front back : List Entry} {r : NodeRef} {v : UInt16}

def lastNode (entries : List Entry) : Option NodeRef := entries.getLast?.map Prod.fst

@[simp] theorem lastNode_nil : lastNode [] = none := rfl

@[simp] theorem lastNode_concat (front : List Entry) (entry : Entry) :
    lastNode (front ++ [entry]) = some entry.1 := by
  simp [lastNode]

structure Holds (l : LinkedList) (config : Config) (heap : Heap)
    (entries : List Entry) : Prop where
  pool : l.pool = ⟨config, .ready heap⟩
  isOpen : l.closed = false
  sound : ∃ cells, heap.Sound cells
  small : heap.layout.slotCount < UInt32.size
  head : l.head = headNode entries none
  nodup : (entries.map Prod.fst).Nodup
  chained : Chained heap.contents entries none

theorem Holds.shows (h : l.Holds config heap entries) : heap.contents.Shows l.pool := by
  obtain ⟨cells, sound⟩ := h.sound
  rw [h.pool]
  exact sound.shows

/-- A list carries entries if it is in use, its links lead from the head through them to
an end, and a walk has steps enough to get there. -/
structure Carries (l : LinkedList) (entries : List Entry) : Prop where
  isOpen : l.closed = false
  head : l.head = headNode entries none
  leads : l.Leads entries none
  enough : entries.length ≤ l.reach

theorem Holds.carries (h : l.Holds config heap entries) : l.Carries entries where
  isOpen := h.isOpen
  head := h.head
  leads := h.chained.leads h.shows
  enough := by
    obtain ⟨cells, sound⟩ := h.sound
    have length := length_le_slotCount sound h.nodup fun node => h.chained.isSome
    rw [reach_eq h.pool]
    exact Nat.le_succ_of_le length

theorem Carries.nodup (h : l.Carries entries) : (entries.map Prod.fst).Nodup :=
  h.leads.nodup

/-! ## Walks -/

theorem Carries.follow_suffix (front : List Entry) (h : l.Carries (front ++ back))
    (stop : NodeRef → Node → Bool) :
    l.follow stop l.reach (headNode back none) =
      .ok ⟨(visits back none).takeWhile fun visit => !stop visit.1 visit.2,
        (visits back none).find? fun visit => stop visit.1 visit.2⟩ := by
  have enough := h.enough
  rw [List.length_append] at enough
  exact (leads_append.mp h.leads).2.follow_eq stop (Nat.le_of_add_left_le enough)

theorem Carries.trail_eq (h : l.Carries entries) (stop : NodeRef → Node → Bool) :
    l.trail stop =
      .ok ⟨(visits entries none).takeWhile fun visit => !stop visit.1 visit.2,
        (visits entries none).find? fun visit => stop visit.1 visit.2⟩ := by
  rw [trail, h.head]
  exact Carries.follow_suffix [] h stop

theorem Carries.trail_of_none (h : l.Carries entries) (stop : NodeRef → Node → Bool)
    (passed : ∀ visit ∈ visits entries none, stop visit.1 visit.2 = false) :
    l.trail stop = .ok ⟨visits entries none, none⟩ := by
  have going : ∀ visit ∈ visits entries none, (!stop visit.1 visit.2) = true := by
    intro visit member
    simp [passed visit member]
  have all : (visits entries none ++ []).takeWhile (fun visit => !stop visit.1 visit.2) =
      visits entries none ++ [] := List.takeWhile_append_of_pos going
  have missed : (visits entries none).find? (fun visit => stop visit.1 visit.2) =
      none := by
    simpa using passed
  rw [List.append_nil] at all
  rw [h.trail_eq, all, missed]

theorem Carries.trail_of_split (h : l.Carries (front ++ (r, v) :: back))
    (stop : NodeRef → Node → Bool)
    (passed : ∀ visit ∈ visits front (some r), stop visit.1 visit.2 = false)
    (hit : stop r ⟨v, headNode back none⟩ = true) :
    l.trail stop =
      .ok ⟨visits front (some r), some (r, ⟨v, headNode back none⟩)⟩ := by
  have going : ∀ visit ∈ visits front (some r), (!stop visit.1 visit.2) = true := by
    intro visit member
    simp [passed visit member]
  have missed : (visits front (some r)).find? (fun visit => stop visit.1 visit.2) =
      none := by
    simpa using passed
  rw [h.trail_eq, visits_append, headNode_cons, List.takeWhile_append_of_pos going,
    List.find?_append, missed]
  simp [visits, hit]

/-! ## Queries -/

theorem Carries.ensureOpen_eq (h : l.Carries entries) : l.ensureOpen = .ok () :=
  ensureOpen_of_open h.isOpen

theorem Carries.values_eq (h : l.Carries entries) :
    l.values = .ok (entries.map Prod.snd) := by
  rw [values, h.ensureOpen_eq, h.trail_of_none _ fun _ _ => rfl]
  simp [bind, Except.bind, pure, Except.pure]

theorem Carries.length_eq (h : l.Carries entries) :
    l.length = .ok entries.length := by
  rw [LinkedList.length, h.values_eq]
  simp [Except.map]

theorem Carries.first_eq (h : l.Carries entries) :
    l.first = .ok (entries.head?.map Prod.fst) := by
  rw [first, h.ensureOpen_eq, h.head, headNode_eq_head?]
  rfl

theorem find?_visits_value (entries : List Entry) (next : Option NodeRef) (v : UInt16) :
    ((visits entries next).find? fun visit => visit.2.value = v).map Prod.fst =
      (entries.find? fun entry => entry.2 = v).map Prod.fst := by
  induction entries with
  | nil => rfl
  | cons entry rest ih =>
      by_cases found : entry.2 = v
      · simp [visits, found]
      · simp [visits, found, ih]

theorem Carries.search_eq (h : l.Carries entries) (v : UInt16) :
    l.search v = .ok ((entries.find? fun entry => entry.2 = v).map Prod.fst) := by
  rw [search, h.ensureOpen_eq, h.trail_eq, ← find?_visits_value]
  rfl

theorem Carries.load_eq (h : l.Carries (front ++ (r, v) :: back)) :
    l.load r = .ok ⟨v, headNode back none⟩ :=
  (leads_append.mp h.leads).2.1

theorem Carries.value_eq (h : l.Carries (front ++ (r, v) :: back)) :
    l.value r = .ok v := by
  rw [value, h.ensureOpen_eq, h.load_eq]
  rfl

theorem Carries.next_eq (h : l.Carries (front ++ (r, v) :: back)) :
    l.next r = .ok (back.head?.map Prod.fst) := by
  rw [next, h.ensureOpen_eq, h.load_eq, headNode_eq_head?]
  rfl

/-! ## Looking for a place -/

theorem fst_mem_of_visits {next : Option NodeRef} {visit : NodeRef × Node}
    (member : visit ∈ visits entries next) : visit.1 ∈ entries.map Prod.fst := by
  rw [← map_fst_visits entries next]
  exact List.mem_map_of_mem member

theorem value_mem_of_visits {next : Option NodeRef} {visit : NodeRef × Node}
    (member : visit ∈ visits entries next) : visit.2.value ∈ entries.map Prod.snd := by
  rw [← map_value_visits entries next]
  exact List.mem_map_of_mem member

theorem next_of_mem_visits {next : Option NodeRef} {visit : NodeRef × Node}
    (member : visit ∈ visits entries next) :
    visit.2.next = next ∨ ∃ node ∈ entries.map Prod.fst, visit.2.next = some node := by
  induction entries with
  | nil => simp [visits] at member
  | cons entry rest ih =>
      rcases List.mem_cons.mp member with rfl | later
      · cases rest with
        | nil => exact .inl rfl
        | cons following rest => exact .inr ⟨following.1, by simp, rfl⟩
      · rcases ih later with same | ⟨node, there, link⟩
        · exact .inl same
        · exact .inr ⟨node, List.mem_cons_of_mem _ there, link⟩

theorem Carries.not_mem (h : l.Carries (front ++ (r, v) :: back)) :
    r ∉ front.map Prod.fst ∧ r ∉ back.map Prod.fst :=
  Layout.not_mem_of_split h.nodup

theorem Carries.member_eq (h : l.Carries (front ++ (r, v) :: back)) :
    l.member r = .ok ⟨v, headNode back none⟩ := by
  have passed : ∀ visit ∈ visits front (some r), decide (visit.1 = r) = false := by
    intro visit member
    have distinct : visit.1 ≠ r := by
      rintro rfl
      exact h.not_mem.1 (fst_mem_of_visits member)
    simpa using distinct
  rw [LinkedList.member, h.trail_of_split _ passed (by simp)]

theorem Carries.member_of_not_mem (h : l.Carries entries)
    (absent : r ∉ entries.map Prod.fst) : l.member r = .error (.nodeNotFound r) := by
  have passed : ∀ visit ∈ visits entries none, decide (visit.1 = r) = false := by
    intro visit member
    have distinct : visit.1 ≠ r := by
      rintro rfl
      exact absent (fst_mem_of_visits member)
    simpa using distinct
  rw [LinkedList.member, h.trail_of_none _ passed]

theorem Carries.trail_last (h : l.Carries entries) :
    ∃ trail, (l.trail fun _ contents => contents.next = none) = .ok trail ∧
      trail.hit.map Prod.fst = lastNode entries := by
  rcases List.eq_nil_or_concat entries with rfl | ⟨front, entry, rfl⟩
  · exact ⟨_, h.trail_of_none _ fun visit member => by simp [visits] at member, rfl⟩
  · rw [List.concat_eq_append] at h ⊢
    refine ⟨_, h.trail_of_split _ (fun visit member => ?_) (by simp), by simp⟩
    rcases next_of_mem_visits member with same | ⟨node, _, link⟩
    · simp [same]
    · simp [link]

theorem headNode_ne {next : Option NodeRef} (absent : r ∉ entries.map Prod.fst)
    (other : next ≠ some r) : headNode entries next ≠ some r := by
  cases entries with
  | nil => exact other
  | cons entry rest =>
      rintro ⟨⟩
      exact absent (by simp)

theorem next_ne_of_mem_visits {next : Option NodeRef} (absent : r ∉ entries.map Prod.fst)
    (other : next ≠ some r) {visit : NodeRef × Node}
    (member : visit ∈ visits entries next) : decide (visit.2.next = some r) = false := by
  rw [decide_eq_false_iff_not]
  intro leads
  rcases next_of_mem_visits member with same | ⟨node, there, link⟩
  · exact other (same ▸ leads)
  · rw [leads, Option.some.injEq] at link
    exact absent (link ▸ there)

theorem Carries.predecessor_eq (h : l.Carries (front ++ (r, v) :: back)) :
    l.predecessor r = .ok (lastNode front) := by
  have absent := h.not_mem.1
  rcases List.eq_nil_or_concat front with rfl | ⟨front, ⟨node, w⟩, rfl⟩
  · rw [predecessor, h.head]
    simp
  · rw [List.concat_eq_append] at h absent ⊢
    rw [List.map_append, List.mem_append, not_or] at absent
    have other : (some node : Option NodeRef) ≠ some r := by
      rintro ⟨⟩
      exact absent.2 (by simp)
    have later : l.head ≠ some r := by
      rw [h.head, List.append_assoc, headNode_append]
      exact headNode_ne absent.1 other
    rw [List.append_assoc, List.singleton_append] at h
    have found := h.trail_of_split (fun _ contents => contents.next = some r)
      (fun visit member => next_ne_of_mem_visits absent.1 other member) (by simp)
    rw [predecessor, if_neg later, found]
    simp

theorem Carries.predecessor_of_not_mem (h : l.Carries entries)
    (absent : r ∉ entries.map Prod.fst) :
    l.predecessor r = .error (.nodeNotFound r) := by
  have other : (none : Option NodeRef) ≠ some r := nofun
  have later : l.head ≠ some r := by
    rw [h.head]
    exact headNode_ne absent other
  have missed := h.trail_of_none (fun _ contents => contents.next = some r)
    fun visit member => next_ne_of_mem_visits absent other member
  rw [predecessor, if_neg later, missed]

/-! ## Ranges of values -/

def upTo (stop : Option NodeRef) : List Entry → List Entry
  | [] => []
  | entry :: rest => if some entry.1 = stop then [entry] else entry :: upTo stop rest

@[simp] theorem upTo_none (entries : List Entry) : upTo none entries = entries := by
  induction entries with
  | nil => rfl
  | cons entry rest ih => simp [upTo, ih]

theorem map_value_upTo (stop : Option NodeRef) (entries : List Entry)
    (next : Option NodeRef) :
    (((visits entries next).takeWhile fun visit => !decide (some visit.1 = stop)) ++
        ((visits entries next).find? fun visit => decide (some visit.1 = stop)).toList).map
          (fun visit => visit.2.value) = (upTo stop entries).map Prod.snd := by
  induction entries with
  | nil => rfl
  | cons entry rest ih =>
      by_cases last : some entry.1 = stop
      · simp [visits, upTo, last]
      · simpa [visits, upTo, last] using ih

theorem Carries.displayRange_head (h : l.Carries entries) (stop : Option NodeRef) :
    l.displayRange none stop = .ok (displayText ((upTo stop entries).map Prod.snd)) := by
  have whole := Carries.follow_suffix [] h fun visited _ => some visited = stop
  rw [← h.head] at whole
  rw [displayRange, h.ensureOpen_eq, ← map_value_upTo stop entries none]
  simp only [rangeStart, bind, Except.bind, whole, pure, Except.pure]

theorem Carries.displayRange_from (h : l.Carries (front ++ (r, v) :: back))
    (stop : Option NodeRef) :
    l.displayRange (some r) stop =
      .ok (displayText ((upTo stop ((r, v) :: back)).map Prod.snd)) := by
  have onward := h.follow_suffix front fun visited _ => some visited = stop
  rw [headNode_cons] at onward
  rw [displayRange, h.ensureOpen_eq, ← map_value_upTo stop ((r, v) :: back) none]
  simp only [rangeStart, h.member_eq, Except.map, bind, Except.bind, onward, pure,
    Except.pure]

theorem Carries.displayRange_of_not_mem (h : l.Carries entries)
    (absent : r ∉ entries.map Prod.fst) (stop : Option NodeRef) :
    l.displayRange (some r) stop = .error (.nodeNotFound r) := by
  rw [displayRange, h.ensureOpen_eq]
  simp only [rangeStart, h.member_of_not_mem absent, Except.map, bind, Except.bind]

/-! ## Looking for a value -/

theorem exists_first_value (entries : List Entry) (v : UInt16) :
    v ∉ entries.map Prod.snd ∨
      ∃ front r back, entries = front ++ (r, v) :: back ∧ v ∉ front.map Prod.snd := by
  induction entries with
  | nil => exact .inl (by simp)
  | cons entry rest ih =>
      obtain ⟨r, w⟩ := entry
      by_cases here : w = v
      · exact .inr ⟨[], r, rest, by simp [here], by simp⟩
      · rcases ih with absent | ⟨front, r', back, rfl, first⟩
        · exact .inl (by simp [absent, Ne.symm here])
        · exact .inr ⟨(r, w) :: front, r', back, rfl, by simp [first, Ne.symm here]⟩

theorem value_ne_of_mem_visits {next : Option NodeRef} (absent : v ∉ entries.map Prod.snd)
    {visit : NodeRef × Node} (member : visit ∈ visits entries next) :
    decide (visit.2.value = v) = false := by
  rw [decide_eq_false_iff_not]
  rintro rfl
  exact absent (value_mem_of_visits member)

theorem Carries.trail_value (h : l.Carries (front ++ (r, v) :: back))
    (first : v ∉ front.map Prod.snd) :
    (l.trail fun _ contents => contents.value = v) =
      .ok ⟨visits front (some r), some (r, ⟨v, headNode back none⟩)⟩ :=
  h.trail_of_split _ (fun _ member => value_ne_of_mem_visits first member) (by simp)

theorem Carries.trail_value_of_not_mem (h : l.Carries entries)
    (absent : v ∉ entries.map Prod.snd) :
    (l.trail fun _ contents => contents.value = v) = .ok ⟨visits entries none, none⟩ :=
  h.trail_of_none _ fun _ member => value_ne_of_mem_visits absent member

theorem lastNode_visits (entries : List Entry) (next : Option NodeRef) :
    (visits entries next).getLast?.map Prod.fst = lastNode entries := by
  rw [lastNode, ← List.getLast?_map, map_fst_visits, List.getLast?_map]

end BlockPool.LinkedList
