import Mathlib.Data.List.Nodup
import BlockPool.Proofs.Layout.Audit
import BlockPool.Proofs.Layout.Editing

/-!
# When an audit passes

An audit ends on every layout, however its records are linked, because it stops
at the latest after one record more than there are.  It passes exactly when
the chain lists all records, their `prev` links lead back along it, and their
ranges cover the addresses up to the given size.
-/

namespace BlockPool.Layout

/-! ## The audit without a bound -/

/-- An audit that looks at one record after the other, for as long as a link leads to one and
none is at fault. -/
inductive AuditRun (l : Layout) :
    Option Nat → Nat → Nat → Option Nat → Except Fault (Nat × Nat) → Prop where
  | ends {link reached offset prev} (stops : link.bind l.get? = none) :
      AuditRun l link reached offset prev (.ok (reached, offset))
  | fails {index record reached offset prev fault} (found : l.get? index = some record)
      (failure : auditFrom l.live [(index, record)] reached offset prev = .error fault) :
      AuditRun l (some index) reached offset prev (.error fault)
  | passes {index record reached offset prev reached' offset' outcome}
      (found : l.get? index = some record)
      (success : auditFrom l.live [(index, record)] reached offset prev =
        .ok (reached', offset'))
      (rest : AuditRun l record.next reached' offset' (some index) outcome) :
      AuditRun l (some index) reached offset prev outcome

def verdict (l : Layout) (size : Nat) : Except Fault (Nat × Nat) → Except Fault Unit
  | .error fault => .error fault
  | .ok (reached, total) =>
      if reached ≠ l.live then
        .error (.unreachable reached l.live)
      else if total ≠ size then
        .error (.wrongTotal total size)
      else
        .ok ()

variable {l : Layout} {entries : List (Nat × Record)} {link prev : Option Nat}
  {reached offset count stop index size steps : Nat} {record : Record}

theorem audit_eq_verdict (l : Layout) (size : Nat) :
    l.audit size =
      l.verdict size (auditFrom l.live (l.walk (l.live + 1) l.first) 0 0 none) := rfl

theorem auditFrom_cons (live : Nat) (entry : Nat × Record) (rest : List (Nat × Record))
    (reached offset : Nat) (prev : Option Nat) :
    auditFrom live (entry :: rest) reached offset prev =
      (auditFrom live [entry] reached offset prev).bind fun (reached, offset) =>
        auditFrom live rest reached offset (some entry.1) := by
  simp only [auditFrom]
  repeat' split
  all_goals rfl

theorem auditFrom_cons_eq_ok_iff {live : Nat} {entry : Nat × Record}
    {rest : List (Nat × Record)} :
    auditFrom live (entry :: rest) reached offset prev = .ok (count, stop) ↔
      reached < live ∧ entry.2.prev = prev ∧ entry.2.offset = offset ∧
        entry.2.offset + entry.2.size < addressBound ∧
        auditFrom live rest (reached + 1) (entry.2.offset + entry.2.size) (some entry.1) =
          .ok (count, stop) := by
  simp only [auditFrom]
  split
  · next full => simp [Nat.not_lt.mpr full]
  · split
    · next other => simp [other]
    · split
      · next other => simp [other]
      · split
        · next large => simp [Nat.not_lt.mpr large]
        · next going back meets small => simp_all

section Steps

variable {outcome : Except Fault (Nat × Nat)}

theorem auditRun_iff_of_stops (stops : link.bind l.get? = none) :
    l.AuditRun link reached offset prev outcome ↔ outcome = .ok (reached, offset) := by
  constructor
  · intro run
    cases run with
    | ends => rfl
    | fails found => simp [found] at stops
    | passes found => simp [found] at stops
  · rintro rfl
    exact .ends stops

theorem auditRun_iff_of_failure {fault : Fault} (found : l.get? index = some record)
    (failure : auditFrom l.live [(index, record)] reached offset prev = .error fault) :
    l.AuditRun (some index) reached offset prev outcome ↔ outcome = .error fault := by
  constructor
  · intro run
    cases run with
    | ends stops => simp [found] at stops
    | fails found' failure' => simp_all
    | passes found' success => simp_all
  · rintro rfl
    exact .fails found failure

theorem auditRun_iff_of_success {reached' offset' : Nat} (found : l.get? index = some record)
    (success : auditFrom l.live [(index, record)] reached offset prev = .ok (reached', offset')) :
    l.AuditRun (some index) reached offset prev outcome ↔
      l.AuditRun record.next reached' offset' (some index) outcome := by
  constructor
  · intro run
    cases run with
    | ends stops => simp [found] at stops
    | fails found' failure => simp_all
    | passes found' success' rest => simp_all
  · exact .passes found success

/-- A record more than there are is at fault, so the audit does not look further. -/
theorem auditRun_iff (within : reached ≤ l.live) (enough : l.live < reached + steps) :
    l.AuditRun link reached offset prev outcome ↔
      outcome = auditFrom l.live (l.walk steps link) reached offset prev := by
  induction steps generalizing link reached offset prev with
  | zero => omega
  | succ steps ih =>
      cases link with
      | none => exact auditRun_iff_of_stops rfl
      | some index =>
          cases found : l.get? index with
          | none =>
              simp only [walk, found]
              exact auditRun_iff_of_stops found
          | some record =>
              simp only [walk, found]
              rw [auditFrom_cons]
              cases first : auditFrom l.live [(index, record)] reached offset prev with
              | error fault => exact auditRun_iff_of_failure found first
              | ok counts =>
                  obtain ⟨reached', offset'⟩ := counts
                  obtain ⟨less, _, _, _, next⟩ := auditFrom_cons_eq_ok_iff.mp first
                  cases next
                  rw [auditRun_iff_of_success found first]
                  exact ih less (by omega)

end Steps

/-! ## What an audit that passes has seen -/

/-- The walk from a link meets these records and then a link that leads to none. -/
def Lists (l : Layout) : Option Nat → List (Nat × Record) → Prop
  | link, [] => link.bind l.get? = none
  | link, (index, record) :: rest =>
      link = some index ∧ l.get? index = some record ∧ l.Lists record.next rest

def LeadsBack : Option Nat → List (Nat × Record) → Prop
  | _, [] => True
  | prev, (index, record) :: rest => record.prev = prev ∧ LeadsBack (some index) rest

theorem lists_walk (short : (l.walk steps link).length < steps) :
    l.Lists link (l.walk steps link) := by
  induction steps generalizing link with
  | zero => exact absurd short (Nat.not_lt_zero _)
  | succ steps ih =>
      cases link with
      | none => rfl
      | some index =>
          cases found : l.get? index with
          | none =>
              simp only [walk, found]
              exact found
          | some record =>
              simp only [walk, found, List.length_cons, Nat.add_lt_add_iff_right] at short ⊢
              exact ⟨rfl, found, ih short⟩

theorem Lists.walk_eq (h : l.Lists link entries) (enough : entries.length ≤ steps) :
    l.walk steps link = entries := by
  induction entries generalizing link steps with
  | nil =>
      cases steps with
      | zero => cases link <;> rfl
      | succ steps =>
          cases link with
          | none => rfl
          | some index =>
              have missing : l.get? index = none := h
              simp only [walk, missing]
  | cons entry rest ih =>
      obtain ⟨rfl, found, onward⟩ := h
      cases steps with
      | zero => exact absurd enough (Nat.not_succ_le_zero _)
      | succ steps => simp only [walk, found, ih onward (Nat.le_of_succ_le_succ enough)]

theorem Lists.get?_eq (h : l.Lists link entries) {entry : Nat × Record}
    (member : entry ∈ entries) : l.get? entry.1 = some entry.2 := by
  rw [← h.walk_eq (Nat.le_refl _)] at member
  exact get?_of_mem_walk member

theorem LeadsBack.getElem?_prev (h : LeadsBack prev entries) {k : Nat} {entry : Nat × Record}
    (here : entries[k]? = some entry) :
    (prev :: entries.map fun other => some other.1)[k]? = some entry.2.prev := by
  induction entries generalizing prev k with
  | nil => simp at here
  | cons first rest ih =>
      obtain ⟨back, onward⟩ := h
      cases k with
      | zero =>
          cases here
          exact congrArg some back.symm
      | succ k => exact ih onward here

theorem LeadsBack.getElem?_prev_congr (h : LeadsBack none entries) (listed : l.Lists link entries)
    {k m : Nat} {entry other : Nat × Record} (here : entries[k]? = some entry)
    (there : entries[m]? = some other) (same : entry.1 = other.1) :
    (none :: entries.map fun before => some before.1)[k]? =
      (none :: entries.map fun before => some before.1)[m]? := by
  have found := listed.get?_eq (List.mem_of_getElem? here)
  rw [same, listed.get?_eq (List.mem_of_getElem? there)] at found
  rw [h.getElem?_prev here, h.getElem?_prev there, Option.some.inj found]

/-- A record that is met again has the `prev` link of the first time, so the record before it
was met again as well, and so on back to the first record, which has none before it. -/
theorem LeadsBack.index_ne (h : LeadsBack none entries) (listed : l.Lists link entries)
    {k m : Nat} {entry other : Nat × Record} (earlier : k < m)
    (here : entries[k]? = some entry) (there : entries[m]? = some other) :
    entry.1 ≠ other.1 := by
  intro same
  induction k generalizing m entry other with
  | zero =>
      obtain ⟨m, rfl⟩ := Nat.exists_eq_add_one.mpr earlier
      have links := h.getElem?_prev_congr listed here there same
      rw [List.getElem?_cons_zero, List.getElem?_cons_succ, List.getElem?_map] at links
      cases met : entries[m]? <;> simp [met] at links
  | succ k ih =>
      obtain ⟨m, rfl⟩ := Nat.exists_eq_add_one.mpr (Nat.zero_lt_of_lt earlier)
      have links := h.getElem?_prev_congr listed here there same
      have inside : k < entries.length := by
        have := (List.getElem?_eq_some_iff.mp here).1
        omega
      have inside' : m < entries.length := by
        have := (List.getElem?_eq_some_iff.mp there).1
        omega
      rw [List.getElem?_cons_succ, List.getElem?_cons_succ, List.getElem?_map,
        List.getElem?_map, List.getElem?_eq_getElem inside,
        List.getElem?_eq_getElem inside'] at links
      exact ih (Nat.lt_of_succ_lt_succ earlier) (List.getElem?_eq_getElem inside)
        (List.getElem?_eq_getElem inside') (Option.some.inj (Option.some.inj links))

theorem LeadsBack.nodup (h : LeadsBack none entries) (listed : l.Lists link entries) :
    (entries.map Prod.fst).Nodup := by
  refine List.nodup_iff_getElem?_ne_getElem?.mpr fun k m earlier inside same => ?_
  rw [List.length_map] at inside
  have before : k < entries.length := Nat.lt_trans earlier inside
  rw [List.getElem?_map, List.getElem?_map, List.getElem?_eq_getElem before,
    List.getElem?_eq_getElem inside] at same
  exact h.index_ne listed earlier (List.getElem?_eq_getElem before)
    (List.getElem?_eq_getElem inside) (Option.some.inj same)

theorem auditFrom_eq_ok_iff {live : Nat} :
    auditFrom live entries reached offset prev = .ok (count, stop) ↔
      count = reached + entries.length ∧ (entries = [] ∨ count ≤ live) ∧
        LeadsBack prev entries ∧ Covers offset (entries.map fun entry => entry.2.block) stop ∧
        ∀ entry ∈ entries, entry.2.offset + entry.2.size < addressBound := by
  induction entries generalizing reached offset prev with
  | nil => simp [auditFrom, LeadsBack, Covers, eq_comm]
  | cons entry rest ih =>
      rw [auditFrom_cons_eq_ok_iff, ih, List.length_cons, List.map_cons, Covers,
        List.forall_mem_cons]
      constructor
      · rintro ⟨less, back, meets, small, total, within, onward, covers, bounded⟩
        refine ⟨by omega, .inr ?_, ⟨back, onward⟩, ⟨meets, covers⟩, small, bounded⟩
        rcases within with rfl | within
        · rw [List.length_nil] at total
          omega
        · exact within
      · rintro ⟨total, within, ⟨back, onward⟩, ⟨meets, covers⟩, small, bounded⟩
        have within : count ≤ live := within.resolve_left (List.cons_ne_nil _ _)
        exact ⟨by omega, back, meets, small, by omega, .inr within, onward, covers, bounded⟩

theorem audit_eq_ok_iff (l : Layout) (size : Nat) :
    l.audit size = .ok () ↔
      auditFrom l.live (l.walk (l.live + 1) l.first) 0 0 none = .ok (l.live, size) := by
  rw [audit_eq_verdict]
  cases auditFrom l.live (l.walk (l.live + 1) l.first) 0 0 none with
  | error fault => simp [verdict]
  | ok counts =>
      obtain ⟨reached, total⟩ := counts
      simp only [verdict, Except.ok.injEq, Prod.mk.injEq]
      split
      · next fewer => simp [fewer]
      · split
        · next other => simp [other]
        · next all whole => simp_all

structure Orderly (l : Layout) (size : Nat) (entries : List (Nat × Record)) : Prop where
  listed : l.Lists l.first entries
  once : (entries.map Prod.fst).Nodup
  all : ∀ i, i ∈ entries.map Prod.fst ↔ (l.get? i).isSome
  back : LeadsBack none entries
  covers : Covers 0 (entries.map fun entry => entry.2.block) size
  bounded : ∀ entry ∈ entries, entry.2.offset + entry.2.size < addressBound

theorem orderly_of_audit (sound : l.arena.Sound) (passed : l.audit size = .ok ()) :
    l.Orderly size (l.walk (l.live + 1) l.first) := by
  obtain ⟨total, -, back, covers, bounded⟩ :=
    auditFrom_eq_ok_iff.mp ((audit_eq_ok_iff l size).mp passed)
  rw [Nat.zero_add] at total
  have listed : l.Lists l.first (l.walk (l.live + 1) l.first) := lists_walk (by omega)
  have once := back.nodup listed
  have live : ∀ i ∈ (l.walk (l.live + 1) l.first).map Prod.fst, (l.get? i).isSome := by
    intro i member
    obtain ⟨entry, met, rfl⟩ := List.mem_map.mp member
    rw [listed.get?_eq met]
    rfl
  refine ⟨listed, once, fun i => ⟨live i, ?_⟩, back, covers, bounded⟩
  exact sound.mem_of_live_le_length once live (by rw [List.length_map]; exact Nat.le_of_eq total)

theorem Orderly.audit_eq (h : l.Orderly size entries) (sound : l.arena.Sound) :
    l.audit size = .ok () := by
  have count : entries.length = l.live := by
    rw [← List.length_map Prod.fst]
    exact sound.length_eq_live h.once h.all
  rw [audit_eq_ok_iff, h.listed.walk_eq (by omega), auditFrom_eq_ok_iff]
  exact ⟨by omega, .inr (Nat.le_refl _), h.back, h.covers, h.bounded⟩

/-- Whatever edits a layout comes from, an audit of it ends, and it passes exactly when the
layout is in order. -/
theorem edits_audit_iff (size : Nat) (edits : List Edit) (n : Nat) :
    let l := (spanning size).editAll edits
    (∃ outcome, (∀ other, l.AuditRun l.first 0 0 none other ↔ other = outcome) ∧
      l.audit n = l.verdict n outcome) ∧
    (l.audit n = .ok () ↔ ∃ entries, l.Orderly n entries) := by
  intro l
  have sound : l.arena.Sound := sound_editAll (chains_spanning size).sound edits
  refine ⟨⟨_, fun other => auditRun_iff (Nat.zero_le _) (by omega), audit_eq_verdict l n⟩, ?_⟩
  exact ⟨fun passed => ⟨_, orderly_of_audit sound passed⟩, fun ⟨_, order⟩ => order.audit_eq sound⟩

/-- The last record leads back to the first one, which has no record before it. -/
example :
    let ring : Record := ⟨10, 0, true, some 0, some 0⟩
    ((spanning 10).editAll [.insertAfter 0 10 0 true, .overwrite 1 ring]).audit 10 =
      .error .cycle := by decide

end BlockPool.Layout
