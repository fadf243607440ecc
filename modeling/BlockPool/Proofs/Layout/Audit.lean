import BlockPool.Layout.Audit
import BlockPool.Proofs.Layout.Coverage

/-!
# What the audit of a layout finds

A layout whose chain covers the addresses up to a size that is itself an
address passes its audit.  Its blocks are a partition of these addresses and
its links lead along all of its records and back.
-/

namespace BlockPool

structure Partition (blocks : List Block) (size : Nat) : Prop where
  first : ∃ b, blocks.head? = some b ∧ b.offset = 0
  meet : ∀ k b c, blocks[k]? = some b → blocks[k + 1]? = some c →
    b.offset + b.size = c.offset
  last : ∃ b, blocks.getLast? = some b ∧ b.offset + b.size = size

theorem Covers.meet {start stop : Nat} {blocks : List Block}
    (h : Covers start blocks stop) {k : Nat} {b c : Block}
    (here : blocks[k]? = some b) (there : blocks[k + 1]? = some c) :
    b.offset + b.size = c.offset := by
  induction blocks generalizing start k with
  | nil => simp at here
  | cons block rest ih =>
      cases k with
      | succ k => exact ih h.2 here there
      | zero =>
          cases rest with
          | nil => simp at there
          | cons next rest =>
              cases here
              cases there
              exact h.2.1.symm

theorem Covers.last {start stop : Nat} {blocks : List Block} {b : Block}
    (h : Covers start blocks stop) (last : blocks.getLast? = some b) :
    b.offset + b.size = stop := by
  obtain ⟨front, rfl⟩ := List.getLast?_eq_some_iff.mp last
  obtain ⟨middle, _, _, tail⟩ := append_iff.mp h
  exact tail

theorem Covers.partition {size : Nat} {blocks : List Block} (h : Covers 0 blocks size)
    (positive : 0 < size) : Partition blocks size := by
  cases blocks with
  | nil =>
      have empty : 0 = size := h
      omega
  | cons block rest =>
      refine ⟨⟨block, rfl, h.1⟩, fun k b c => h.meet, ?_⟩
      cases last : (block :: rest).getLast? with
      | none => simp at last
      | some b => exact ⟨b, rfl, h.last last⟩

namespace Layout

variable {l : Layout} {cells : List Cell}

/-! ## The links -/

/-- Following `next` from `first` meets every record once and then ends, and
`prev` leads back the same way. -/
structure WellLinked (l : Layout) : Prop where
  once : (l.entries.map Prod.fst).Nodup
  all : ∀ i record, (i, record) ∈ l.entries ↔ l.get? i = some record
  ends : ∀ steps, l.live ≤ steps → l.walk steps l.first = l.entries
  first : ∀ i, l.first = some i →
    ∃ record, l.get? i = some record ∧ record.prev = none
  next : ∀ i j record, l.get? i = some record → record.next = some j →
    ∃ other, l.get? j = some other ∧ other.prev = some i
  prev : ∀ i j record, l.get? i = some record → record.prev = some j →
    ∃ other, l.get? j = some other ∧ other.next = some i

theorem Chains.exists_split (h : l.Chains cells) {i : Nat} {record : Record}
    (found : l.get? i = some record) :
    ∃ before after, cells = before ++ (i, record.block) :: after ∧
      record.prev = lastLink none before ∧ record.next = headLink after none := by
  obtain ⟨before, after, rfl⟩ := List.append_of_mem (h.mem_of_get? found)
  have read := h.get?_of_split
  rw [found, Option.some.injEq] at read
  exact ⟨before, after, rfl, congrArg Record.prev read, congrArg Record.next read⟩

theorem Chains.prev_of_next (h : l.Chains cells) {i j : Nat} {record : Record}
    (found : l.get? i = some record) (next : record.next = some j) :
    ∃ other, l.get? j = some other ∧ other.prev = some i := by
  obtain ⟨before, after, rfl, _, link⟩ := h.exists_split found
  cases after with
  | nil => simp [link] at next
  | cons cell rest =>
      rw [link, headLink_cons, Option.some.injEq] at next
      subst next
      rw [List.append_cons] at h
      exact ⟨_, h.get?_of_split, by simp⟩

theorem Chains.next_of_prev (h : l.Chains cells) {i j : Nat} {record : Record}
    (found : l.get? i = some record) (prev : record.prev = some j) :
    ∃ other, l.get? j = some other ∧ other.next = some i := by
  obtain ⟨before, after, rfl, link, _⟩ := h.exists_split found
  rcases List.eq_nil_or_concat before with rfl | ⟨front, cell, rfl⟩
  · simp [link] at prev
  · rw [link, List.concat_eq_append, lastLink_append, lastLink_cons, lastLink_nil,
      Option.some.injEq] at prev
    subst prev
    rw [List.concat_eq_append, List.append_assoc] at h
    exact ⟨_, h.get?_of_split, rfl⟩

theorem map_fst_recordsFrom (prev : Option Nat) (cells : List Cell) :
    (recordsFrom prev cells).map Prod.fst = cells.map Prod.fst := by
  have cells_eq := congrArg (List.map Prod.fst) (map_recordsFrom prev cells)
  rw [List.map_map] at cells_eq
  exact cells_eq

theorem Chains.mem_entries (h : l.Chains cells) {i : Nat} {record : Record} :
    (i, record) ∈ l.entries ↔ l.get? i = some record := by
  refine ⟨get?_of_mem_walk, fun found => ?_⟩
  have visited : i ∈ l.entries.map Prod.fst := by
    rw [h.entries_eq, map_fst_recordsFrom, h.isSome_get?_iff, found]
    rfl
  obtain ⟨⟨i, other⟩, member, rfl⟩ := List.mem_map.mp visited
  have same := get?_of_mem_walk member
  rw [found, Option.some.injEq] at same
  rwa [same]

theorem Chains.wellLinked (h : l.Chains cells) : l.WellLinked where
  once := by
    rw [h.entries_eq, map_fst_recordsFrom]
    exact h.nodup
  all i record := h.mem_entries
  ends steps enough := by
    rw [h.entries_eq, h.first, h.linked.walk_eq (h.length_eq_live ▸ enough)]
  first i link := by
    rw [h.first] at link
    cases cells with
    | nil => simp at link
    | cons cell rest =>
        simp only [headLink_cons, Option.some.injEq] at link
        subst link
        exact ⟨_, h.linked.1, rfl⟩
  next i j record found := h.prev_of_next found
  prev i j record found := h.next_of_prev found

/-! ## The audit -/

theorem auditFrom_eq {start stop live reached : Nat} {prev : Option Nat}
    (covers : Covers start (cells.map Prod.snd) stop) (bounded : stop < addressBound)
    (enough : reached + cells.length ≤ live) :
    auditFrom live (recordsFrom prev cells) reached start prev =
      .ok (reached + cells.length, stop) := by
  induction cells generalizing start reached prev with
  | nil =>
      have same : start = stop := covers
      simp [recordsFrom, auditFrom, same]
  | cons cell rest ih =>
      obtain ⟨index, b⟩ := cell
      obtain ⟨rfl, tail⟩ : b.offset = start ∧
        Covers (b.offset + b.size) (rest.map Prod.snd) stop := covers
      have inside := tail.le
      rw [List.length_cons] at enough
      have going : ¬ live ≤ reached := by omega
      have small : ¬ addressBound ≤ b.offset + b.size := by omega
      have further : auditFrom live (recordsFrom (some index) rest) (reached + 1)
          (b.offset + b.size) (some index) = .ok (reached + 1 + rest.length, stop) :=
        ih tail (by omega)
      simp only [recordsFrom, auditFrom, Block.prev_record, Block.offset_record,
        Block.size_record, ne_eq, not_true_eq_false, if_false, if_neg going,
        if_neg small, further, List.length_cons, Nat.add_assoc, Nat.add_comm 1]

theorem Chains.audit_eq (h : l.Chains cells) {size : Nat}
    (covers : Covers 0 (cells.map Prod.snd) size) (bounded : size < addressBound) :
    l.audit size = .ok () := by
  have walk : l.walk (l.live + 1) l.first = recordsFrom none cells := by
    rw [h.first, h.linked.walk_eq]
    rw [h.length_eq_live]
    exact Nat.le_succ _
  have reached : auditFrom l.live (recordsFrom none cells) 0 0 none =
      .ok (0 + cells.length, size) :=
    auditFrom_eq covers bounded
      (Nat.le_of_eq ((Nat.zero_add _).trans h.length_eq_live))
  rw [audit, walk, reached]
  simp [h.length_eq_live]

end Layout

end BlockPool
