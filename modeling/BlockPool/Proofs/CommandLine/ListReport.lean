import BlockPool.CommandLine.ListReport
import BlockPool.Proofs.CommandLine.Session
import BlockPool.Proofs.LinkedList.Filling

/-!
# What the list command shows

The command ends well just if the pool has room for a node for each value that
is inserted.  Each deletion then takes out the first value of its kind that is
still there, or says that there is none, and every node that was made has been
given back in the end.
-/

namespace BlockPool.CommandLine.ListReport

open LinkedList Session

variable {l : LinkedList} {config : Config} {heap : Heap} {made size : Nat}
  {inserted deleted values : List UInt16} {left : List (UInt16 × Nat)}

/-! ## Insertions -/

theorem insertAll_of_le (h : l.Collects config heap values)
    (room : Node.byteSize * (values.length + inserted.length) ≤ heap.size)
    (few : values.length + inserted.length + 1 < UInt32.size) :
    ∃ l' heap', insertAll inserted l = pure l' ∧
      l'.Collects config heap' (values ++ inserted) := by
  induction inserted generalizing l heap values with
  | nil => exact ⟨l, heap, rfl, by rwa [List.append_nil]⟩
  | cons value rest ih =>
      rw [List.length_cons] at room few
      have space : Node.byteSize * (values.length + 1) ≤ heap.size := by
        simp only [Node.byteSize] at room ⊢
        omega
      obtain ⟨node, l₁, heap₁, step, next, same⟩ := h.insert_of_le (by omega) space value
      have length : (values ++ [value]).length + rest.length =
          values.length + (rest.length + 1) := by
        rw [List.length_append, List.length_singleton, Nat.add_assoc, Nat.add_comm 1]
      obtain ⟨l', heap', ran, after⟩ :=
        ih next (by rwa [length, same]) (by rwa [length])
      refine ⟨l', heap', ?_, by rwa [List.append_assoc] at after⟩
      rw [insertAll, step, orFailWith_ok, pure_bind]
      exact ran

/-- The insertion that the pool has no room for is that of the value at `size / 16`. -/
theorem insertAll_of_lt (h : l.Collects config heap values)
    (fit : Node.byteSize * values.length ≤ heap.size)
    (lack : heap.size < Node.byteSize * (values.length + inserted.length))
    (few : heap.size / Node.byteSize + 1 < UInt32.size) :
    ∃ value, (values ++ inserted)[heap.size / Node.byteSize]? = some value ∧
      insertAll inserted l = fail (.insertion value
        (.pool (.allocationFailed Node.byteSize (heap.size % Node.byteSize)))) := by
  induction inserted generalizing l heap values with
  | nil => exact absurd fit (Nat.not_le_of_lt lack)
  | cons value rest ih =>
      by_cases room : Node.byteSize * (values.length + 1) ≤ heap.size
      · have below : values.length + 1 ≤ heap.size / Node.byteSize :=
          (Nat.le_div_iff_mul_le (by decide)).mpr (by rwa [Nat.mul_comm])
        obtain ⟨node, l₁, heap₁, step, next, same⟩ := h.insert_of_le (by omega) room value
        have length : (values ++ [value]).length = values.length + 1 := by simp
        rw [List.length_cons, Nat.add_comm rest.length, ← Nat.add_assoc, ← length] at lack
        rw [← length] at room
        rw [← same] at room lack few ⊢
        obtain ⟨refused, place, ran⟩ := ih next room lack few
        refine ⟨refused, by rwa [List.append_assoc] at place, ?_⟩
        rw [insertAll, step, orFailWith_ok, pure_bind]
        exact ran
      · have lack' := Nat.lt_of_not_le room
        have place : heap.size / Node.byteSize = values.length :=
          Nat.div_eq_of_lt_le (by rwa [Nat.mul_comm]) (by rwa [Nat.mul_comm])
        rw [place] at few
        obtain ⟨l', step⟩ := h.insert_of_lt few lack' value
        refine ⟨value, by simp [place], ?_⟩
        rw [insertAll, step, orFailWith_error, fail_bind, Nat.mod_def, place]

/-! ## Deletions -/

def survivors (left : List (UInt16 × Nat)) (deleted : List UInt16) : List (UInt16 × Nat) :=
  deleted.foldl (fun left value => left.eraseP fun entry => entry.1 = value) left

/-- The lines on the deletions of values that are not there when it is their turn. -/
def missed (left : List UInt16) : List UInt16 → List ListLine
  | [] => []
  | value :: rest =>
      if value ∈ left then missed (left.erase value) rest
      else .notDeleted value :: missed left rest

theorem map_eraseP (left : List (UInt16 × Nat)) (value : UInt16) :
    (left.eraseP fun entry => entry.1 = value).map Prod.fst =
      (left.map Prod.fst).erase value := by
  rw [List.erase_eq_eraseP, List.eraseP_map]
  congr 2
  funext entry
  exact decide_eq_decide.mpr eq_comm

theorem map_survivors (left : List (UInt16 × Nat)) (deleted : List UInt16) :
    (survivors left deleted).map Prod.fst = (left.map Prod.fst).diff deleted := by
  induction deleted generalizing left with
  | nil => rfl
  | cons value rest ih =>
      rw [List.diff_cons, ← map_eraseP]
      exact ih _

theorem deleteAll_eq (h : l.Tends config made (Sequence.numbered left)) (deleted : List UInt16) :
    ∃ l', deleteAll deleted l = ⟨missed (left.map Prod.fst) deleted, .ok l'⟩ ∧
      l'.Tends config made (Sequence.numbered (survivors left deleted)) := by
  induction deleted generalizing l left with
  | nil => exact ⟨l, rfl, h⟩
  | cons value rest ih =>
      rw [deleteAll, missed]
      by_cases there : value ∈ left.map Prod.fst
      · obtain ⟨l₁, step, next⟩ := h.delete_of_mem (Sequence.values_numbered left ▸ there)
        rw [Sequence.eraseP_numbered] at next
        obtain ⟨l', ran, after⟩ := ih next
        rw [step, if_pos there, ← map_eraseP]
        exact ⟨l', ran, after⟩
      · have idle : (left.eraseP fun entry => entry.1 = value) = left := by
          rw [List.eraseP_of_forall_not]
          intro entry member same
          rw [decide_eq_true_iff] at same
          exact there (same ▸ List.mem_map_of_mem member)
        obtain ⟨l', ran, after⟩ := ih h
        rw [h.delete_of_not_mem (Sequence.values_numbered left ▸ there), if_neg there, survivors,
          List.foldl_cons, idle]
        refine ⟨l', ?_, after⟩
        simp only [print_bind, ran]

/-! ## The report -/

def sought (left : List (UInt16 × Nat)) : Option UInt16 → List ListLine
  | none => []
  | some value =>
      match left.find? fun entry => entry.1 = value with
      | none => [.notFound value]
      | some entry => [.found value (.numbered entry.2)]

def report (l : LinkedList) (search : Option UInt16) : Session ListLine Unit := do
  print (.shown (← orFail .list l.display))
  print (.counted (← orFail .list l.length))
  searchFor l search
  let (statistics, _) ← orFailWith .cleanUp l.cleanup
  print (.statistics statistics)

theorem searchFor_eq (h : l.Holds config heap (Sequence.numbered left))
    (search : Option UInt16) : searchFor l search = ⟨sought left search, .ok ()⟩ := by
  cases search with
  | none => rfl
  | some value =>
      rw [searchFor, h.carries.search_eq, Sequence.find?_numbered, orFail_ok, pure_bind, sought]
      cases left.find? fun entry => entry.1 = value <;> rfl

theorem report_eq (h : l.Tends config made (Sequence.numbered left)) (search : Option UInt16) :
    ∃ statistics, report l search =
        ⟨[.shown (displayText (left.map Prod.fst)), .counted left.length] ++
          sought left search ++ [.statistics statistics], .ok ()⟩ ∧
      statistics.usedBytes = 0 ∧ (config.trackStats = true →
        statistics.allocationCount = made ∧ statistics.deallocationCount = made) := by
  obtain ⟨statistics, l', cleaned, accounts⟩ := h.cleanup
  obtain ⟨heap, holds, _⟩ := h
  refine ⟨statistics, ?_, accounts⟩
  have shown : (Sequence.numbered left).map Prod.snd = left.map Prod.fst :=
    Sequence.values_numbered left
  have counted : (Sequence.numbered left).length = left.length := List.length_map ..
  rw [report, display, holds.carries.displayRange_head, upTo_none, shown, holds.carries.length_eq, counted,
    searchFor_eq holds, cleaned]
  simp only [orFail_ok, orFailWith_ok, pure_bind, print_bind, bind_ok]
  rfl

/-! ## The whole command -/

structure Reports (config : Config) (size : Nat) (inserted deleted : List UInt16)
    (search : Option UInt16) : Prop where
  succeeds_iff : (run config size inserted deleted search).result = .ok () ↔
    16 * inserted.length ≤ size
  fails : size < 16 * inserted.length →
    ∃ value, inserted[size / 16]? = some value ∧
      run config size inserted deleted search =
        ⟨[], .error (.insertion value (.pool (.allocationFailed 16 (size % 16))))⟩
  shows : 16 * inserted.length ≤ size →
    ∃ statistics,
      (run config size inserted deleted search).lines =
        missed inserted deleted ++
          ([.shown (displayText (inserted.diff deleted)),
            .counted (inserted.diff deleted).length] ++
          sought (survivors inserted.zipIdx deleted) search ++ [.statistics statistics]) ∧
      statistics.usedBytes = 0 ∧ (config.trackStats = true →
        statistics.allocationCount = inserted.length ∧
          statistics.deallocationCount = inserted.length)
  places : 16 * inserted.length ≤ size →
    ∀ entry ∈ survivors inserted.zipIdx deleted, inserted[entry.2]? = some entry.1 ∧
      (ListLine.found entry.1 (.numbered entry.2)).text =
        s!"search {entry.1}: found at node #{entry.2}@0"

theorem run_eq (valid : config.validate = .ok ()) (positive : 0 < size)
    (inserted deleted : List UInt16) (search : Option UInt16) :
    run config size inserted deleted search =
      insertAll inserted ⟨⟨config, .ready (.ofSize size config)⟩, none, false⟩ >>= fun l =>
        deleteAll deleted l >>= fun l => report l search := by
  rw [run, Pool.withConfig_of_valid valid, orFail_ok, pure_bind, ofPool,
    Pool.setUp_of_pos positive]
  rfl

theorem run_of_lt (valid : config.validate = .ok ()) (positive : 0 < size)
    (few : min inserted.length (size / 16) + 1 < UInt32.size)
    (lack : size < 16 * inserted.length) (deleted : List UInt16) (search : Option UInt16) :
    ∃ value, inserted[size / 16]? = some value ∧
      run config size inserted deleted search =
        ⟨[], .error (.insertion value (.pool (.allocationFailed 16 (size % 16))))⟩ := by
  have start := collects_ofSize size config
  have here : (Heap.ofSize size config).size = size := Heap.size_ofSize ..
  have less : size / 16 < inserted.length := by omega
  rw [Nat.min_eq_right (Nat.le_of_lt less)] at few
  have lack' : (Heap.ofSize size config).size <
      Node.byteSize * (([] : List UInt16).length + inserted.length) := by
    simpa [Node.byteSize] using lack
  obtain ⟨value, place, failed⟩ :=
    insertAll_of_lt start (Nat.zero_le _) lack' (by rw [here]; exact few)
  rw [here] at place failed
  refine ⟨value, place, ?_⟩
  rw [run_eq valid positive, failed, fail_bind]
  rfl

theorem run_of_le (valid : config.validate = .ok ()) (positive : 0 < size)
    (few : min inserted.length (size / 16) + 1 < UInt32.size)
    (room : 16 * inserted.length ≤ size) (deleted : List UInt16) (search : Option UInt16) :
    ∃ statistics,
      run config size inserted deleted search =
        ⟨missed inserted deleted ++
          ([.shown (displayText (inserted.diff deleted)),
            .counted (inserted.diff deleted).length] ++
          sought (survivors inserted.zipIdx deleted) search ++ [.statistics statistics]),
          .ok ()⟩ ∧
      statistics.usedBytes = 0 ∧ (config.trackStats = true →
        statistics.allocationCount = inserted.length ∧
          statistics.deallocationCount = inserted.length) := by
  have start := collects_ofSize size config
  have here : (Heap.ofSize size config).size = size := Heap.size_ofSize ..
  have length : inserted.length ≤ size / 16 := by omega
  rw [Nat.min_eq_left length] at few
  have room' : Node.byteSize * (([] : List UInt16).length + inserted.length) ≤
      (Heap.ofSize size config).size := by
    simpa [Node.byteSize] using room
  obtain ⟨l₁, heap₁, added, full⟩ := insertAll_of_le start room' (by simpa using few)
  have tends : l₁.Tends config inserted.length (Sequence.numbered inserted.zipIdx) :=
    ⟨heap₁, full.holds, full.books⟩
  obtain ⟨l₂, removed, left⟩ := deleteAll_eq tends deleted
  obtain ⟨statistics, reported, accounts⟩ := report_eq left search
  refine ⟨statistics, ?_, accounts⟩
  have values : (survivors inserted.zipIdx deleted).map Prod.fst = inserted.diff deleted := by
    rw [map_survivors, List.zipIdx_map_fst]
  rw [run_eq valid positive, added, pure_bind, removed, bind_ok, reported, ← values,
    List.length_map, List.zipIdx_map_fst]

theorem mem_of_mem_survivors {left : List (UInt16 × Nat)} {deleted : List UInt16}
    {entry : UInt16 × Nat} (member : entry ∈ survivors left deleted) : entry ∈ left := by
  induction deleted generalizing left with
  | nil => exact member
  | cons value rest ih => exact List.mem_of_mem_eraseP (ih member)

theorem text_found (value : UInt16) {position : Nat} (small : position < UInt32.size) :
    (ListLine.found value (.numbered position)).text =
      s!"search {value}: found at node #{position}@0" := by
  have index : toString (UInt32.ofNat position) = toString position :=
    congrArg toString (UInt32.toNat_ofNat_of_lt' small)
  have joined (rest : String) :
      ": found at " ++ ("node " ++ ("#" ++ rest)) = ": found at node #" ++ rest := by
    rw [← String.append_assoc, ← String.append_assoc]
    rfl
  have generation : "@" ++ toString (0 : UInt32) = "@0" := by decide
  rw [ListLine.text, NodeRef.text, NodeRef.numbered, Handle.text, index]
  change "search " ++ toString value ++ ": found at " ++
      ("node " ++ ("#" ++ toString position ++ "@" ++ toString (0 : UInt32))) =
    "search " ++ toString value ++ ": found at node #" ++ toString position ++ "@0"
  simp only [String.append_assoc, joined, generation]

theorem run_shows_left (valid : config.validate = .ok ()) (positive : 0 < size)
    (few : min inserted.length (size / 16) + 1 < UInt32.size) (deleted : List UInt16)
    (search : Option UInt16) : Reports config size inserted deleted search where
  succeeds_iff := by
    constructor
    · intro succeeded
      by_contra lack
      obtain ⟨value, _, failed⟩ :=
        run_of_lt valid positive few (Nat.lt_of_not_le lack) deleted search
      rw [failed] at succeeded
      cases succeeded
    · intro room
      obtain ⟨statistics, ran, _⟩ := run_of_le valid positive few room deleted search
      rw [ran]
  fails lack := run_of_lt valid positive few lack deleted search
  shows room := by
    obtain ⟨statistics, ran, accounts⟩ := run_of_le valid positive few room deleted search
    exact ⟨statistics, by rw [ran], accounts⟩
  places room entry member := by
    have there := List.mem_zipIdx_iff_getElem?.mp (mem_of_mem_survivors member)
    have inside := (List.getElem?_eq_some_iff.mp there).1
    exact ⟨there, text_found entry.1 (by omega)⟩

theorem run_shows_left_partial : Reports .debug 56 [7, 5, 7] [7, 9] (some 7) :=
  run_shows_left (by decide +kernel) (by decide) (by decide) [7, 9] (some 7)

end BlockPool.CommandLine.ListReport
