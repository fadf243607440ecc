import Mathlib.Data.List.Infix
import BlockPool.Proofs.LinkedList.Below

/-!
# Ranges of a list as text

A range of a list begins at a node, or at the first one, and ends at a node
that does not come before, or else at the last one.  Its text is told from the
places of the two nodes alone, for every list whose links lead to an end.
-/

namespace BlockPool

namespace Sequence

variable {s front back : Sequence} {node : NodeRef}

def firstPlace (s : Sequence) : Option NodeRef → Nat
  | none => 0
  | some node => s.nodes.idxOf node

/-- The place of a node that is not before `first`, or else the last place. -/
def lastPlace (s : Sequence) (first : Nat) : Option NodeRef → Nat
  | none => s.length - 1
  | some node =>
      if node ∈ s.nodes ∧ first ≤ s.nodes.idxOf node then s.nodes.idxOf node
      else s.length - 1

def valuesBetween (s : Sequence) (first last : Nat) : List UInt16 :=
  (s.values.take (last + 1)).drop first

theorem le_lastPlace {first : Nat} (inside : first < s.length) (stop : Option NodeRef) :
    first ≤ s.lastPlace first stop := by
  cases stop with
  | none => exact Nat.le_sub_one_of_lt inside
  | some node =>
      rw [lastPlace]
      split
      · next place => exact place.2
      · exact Nat.le_sub_one_of_lt inside

theorem firstPlace_lt {start : Option NodeRef} (filled : s ≠ [])
    (member : ∀ node, start = some node → node ∈ s.nodes) : s.firstPlace start < s.length := by
  cases start with
  | none => exact List.length_pos_iff.mpr filled
  | some node =>
      have inside := List.idxOf_lt_length_of_mem (member node rfl)
      rwa [nodes, List.length_map] at inside

theorem valuesBetween_eq_nil_iff {start : Option NodeRef}
    (member : ∀ node, start = some node → node ∈ s.nodes) (stop : Option NodeRef) :
    s.valuesBetween (s.firstPlace start) (s.lastPlace (s.firstPlace start) stop) = [] ↔
      s = [] := by
  constructor
  · intro nothing
    refine Decidable.byContradiction fun filled => ?_
    have inside := firstPlace_lt filled member
    have ordered := le_lastPlace inside stop
    have length := congrArg List.length nothing
    simp only [valuesBetween, values, List.length_drop, List.length_take, List.length_map,
      List.length_nil] at length
    omega
  · rintro rfl
    simp [valuesBetween, values]

/-! ## The entries up to a node -/

open LinkedList (upTo upTo_none)

theorem upTo_of_not_mem (absent : node ∉ s.nodes) : upTo (some node) s = s := by
  induction s with
  | nil => rfl
  | cons entry rest ih =>
      rw [nodes, List.map_cons, List.mem_cons, not_or] at absent
      have other : (some entry.1 : Option NodeRef) ≠ some node := by
        simpa using Ne.symm absent.1
      rw [upTo, if_neg other, ih absent.2]

theorem upTo_of_mem (member : node ∈ s.nodes) :
    upTo (some node) s = s.take (s.nodes.idxOf node + 1) := by
  induction s with
  | nil => cases member
  | cons entry rest ih =>
      by_cases here : entry.1 = node
      · simp [upTo, nodes, here]
      · have later : node ∈ nodes rest := by
          rcases List.mem_cons.mp member with same | later
          · exact absurd same.symm here
          · exact later
        have place : nodes (entry :: rest) = entry.1 :: nodes rest := rfl
        rw [upTo, if_neg (by simpa using here), ih later, place, List.idxOf_cons_ne _ here,
          List.take_succ_cons]

theorem values_upTo (nodup : (nodes (front ++ back)).Nodup) (stop : Option NodeRef) :
    values (upTo stop back) =
      valuesBetween (front ++ back) front.length
        (lastPlace (front ++ back) front.length stop) := by
  have split : nodes (front ++ back) = nodes front ++ nodes back := List.map_append
  have behind : (values (front ++ back)).drop front.length = values back := by
    simp [values]
  have all : values back = valuesBetween (front ++ back) front.length
      ((front ++ back).length - 1) := by
    rw [valuesBetween, List.take_of_length_le (by simp [values]; omega), behind]
  cases stop with
  | none => rw [upTo_none, lastPlace, all]
  | some node =>
      by_cases member : node ∈ nodes back
      · have absent : node ∉ nodes front := by
          exact fun before => Layout.disjoint_of_nodup nodup node before member
        have place : (nodes (front ++ back)).idxOf node =
            front.length + (nodes back).idxOf node := by
          rw [split, List.idxOf_append_of_notMem absent, nodes, List.length_map]
        have found : node ∈ nodes (front ++ back) ∧
            front.length ≤ (nodes (front ++ back)).idxOf node := by
          rw [place, split]
          exact ⟨List.mem_append_right _ member, Nat.le_add_right ..⟩
        rw [upTo_of_mem member, lastPlace, if_pos found, place, valuesBetween,
          List.drop_take, behind, Nat.add_assoc, Nat.add_sub_cancel_left, values,
          List.map_take, values]
      · have before : ¬(node ∈ nodes (front ++ back) ∧
            front.length ≤ (nodes (front ++ back)).idxOf node) := by
          rintro ⟨there, behind⟩
          rw [split] at there behind
          have first := (List.mem_append.mp there).resolve_right member
          have place := List.idxOf_lt_length_of_mem first
          rw [List.idxOf_append_of_mem first] at behind
          have length : (nodes front).length = front.length := List.length_map ..
          omega
        rw [upTo_of_not_mem member, lastPlace, if_neg before, all]

end Sequence

namespace LinkedList

variable {l : LinkedList} {s : Sequence}

/-! ## The text of a range -/

def bracketed (numbers : List Nat) : String :=
  "[" ++ ", ".intercalate (numbers.map Nat.repr) ++ "]"

theorem displayText_eq (values : List UInt16) :
    displayText values = bracketed (values.map UInt16.toNat) := by
  rw [displayText, bracketed, List.map_map]
  rfl

theorem bracketed_eq_brackets_iff (numbers : List Nat) :
    bracketed numbers = "[]" ↔ numbers = [] := by
  constructor
  · intro empty
    cases numbers with
    | nil => rfl
    | cons number rest =>
        have brackets : "[]".length = "[".length + "]".length := rfl
        have length := congrArg String.length empty
        rw [bracketed, String.length_append, String.length_append, brackets] at length
        have inner : (", ".intercalate ((number :: rest).map Nat.repr)).length = 0 := by
          omega
        cases rest <;> simp [Nat.repr_ne_empty] at inner
  · rintro rfl
    rfl

theorem Carries.displayRange_eq (h : l.Carries s) {start : Option NodeRef}
    (member : ∀ r, start = some r → r ∈ s.nodes) (stop : Option NodeRef) :
    l.displayRange start stop =
      .ok (displayText (s.valuesBetween (s.firstPlace start)
        (s.lastPlace (s.firstPlace start) stop))) := by
  cases start with
  | none =>
      have whole : (Sequence.nodes ([] ++ s)).Nodup := h.nodup
      have segment := Sequence.values_upTo whole stop
      rw [h.displayRange_head]
      exact congrArg (Except.ok ∘ displayText) segment
  | some r =>
      obtain ⟨⟨r, v⟩, there, rfl⟩ := List.mem_map.mp (member r rfl)
      obtain ⟨front, back, rfl⟩ := List.append_of_mem there
      have segment := Sequence.values_upTo h.nodup stop
      have place : (Sequence.nodes (front ++ (r, v) :: back)).idxOf r = front.length := by
        have absent : r ∉ Sequence.nodes front := h.not_mem.1
        have split : Sequence.nodes (front ++ (r, v) :: back) =
            Sequence.nodes front ++ r :: Sequence.nodes back := List.map_append
        rw [split, List.idxOf_append_of_notMem absent, List.idxOf_cons_self, Sequence.nodes,
          List.length_map, Nat.add_zero]
      rw [h.displayRange_from, Sequence.firstPlace, place]
      exact congrArg (Except.ok ∘ displayText) segment

/-! ## Runs -/

/-- Whatever has been done to the blocks of its nodes, a list in use whose links lead
through some entries to an end shows the values from the place of the first node to
that of the last one. -/
theorem run_displays_range {pool : Pool} {size : Nat} {l l' : LinkedList}
    (opened : ofPool pool size = .ok l) {requests : List Request}
    (reached : (l.run requests).2 = l') (isOpen : l'.closed = false)
    (head : l'.head = headNode s none) (leads : l'.Leads s none) :
    (∀ start stop : Option NodeRef, (∀ r, start = some r → r ∈ s.nodes) →
      l'.displayRange start stop =
        .ok (bracketed ((s.valuesBetween (s.firstPlace start)
          (s.lastPlace (s.firstPlace start) stop)).map UInt16.toNat)) ∧
      (l'.displayRange start stop = .ok "[]" ↔ s = [])) ∧
    l'.display = l'.displayRange none none := by
  have sound : l'.pool.Sound := reached ▸ (reached_run opened requests).sound
  have carried : l'.Carries s := by
    constructor
    · exact isOpen
    · exact head
    · exact leads
    · exact Nat.le_of_lt (leads.length_lt_reach sound leads.nodup)
  refine ⟨fun start stop member => ?_, rfl⟩
  have shown := carried.displayRange_eq member stop
  rw [displayText_eq] at shown
  refine ⟨shown, ?_⟩
  rw [shown, Except.ok.injEq, bracketed_eq_brackets_iff, List.map_eq_nil_iff,
    Sequence.valuesBetween_eq_nil_iff member]

/-- The second node is where the range begins and the first one is not behind it, so the
range goes on to the end. -/
theorem run_displays_range_backwards :
    ∃ l l', ofPool ⟨.debug, .uninitialized⟩ 128 = .ok l ∧
      (l.run [.insert 7, .insert 9, .insert 7]).2 = l' ∧
      l'.displayRange (some ⟨⟨1, 0⟩⟩) (some ⟨⟨0, 0⟩⟩) = .ok "[9, 7]" := by
  have opened : ofPool ⟨.debug, .uninitialized⟩ 128 =
      .ok ⟨⟨.debug, .ready (.ofSize 128 .debug)⟩, none, false⟩ := rfl
  have shown := (run_displays_range
    (s := [(⟨⟨0, 0⟩⟩, 7), (⟨⟨1, 0⟩⟩, 9), (⟨⟨2, 0⟩⟩, 7)]) opened
    (rfl : (LinkedList.run _ [.insert 7, .insert 9, .insert 7]).2 = _)
    (by decide +kernel) (by decide +kernel)
    ⟨by decide +kernel, by decide +kernel, by decide +kernel, trivial⟩).1
      (some ⟨⟨1, 0⟩⟩) (some ⟨⟨0, 0⟩⟩) (by rintro _ ⟨⟩; decide)
  exact ⟨_, _, opened, rfl, shown.1⟩

end LinkedList

end BlockPool
