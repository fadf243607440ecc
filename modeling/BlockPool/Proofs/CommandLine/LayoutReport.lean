import BlockPool.CommandLine.LayoutReport
import BlockPool.Proofs.CommandLine.Session
import BlockPool.Proofs.Pool.Holdings
import BlockPool.Proofs.Pool.Partition

/-!
# What the inspect command shows

The command ends well just if every position to be freed is one of an
allocation.  Its table is then a partition of the pool whose used rows are the
allocations that found room and were not freed.  Which positions are freed
matters, not how often, and under the bidirectional policy not in which order.
-/

namespace BlockPool.CommandLine.LayoutReport

open Session Heap

variable {config : Config} {heap : Heap} {handles : List (Option Handle)} {freed : List Nat}
  {position size : Nat} {sizes : List Nat} {handle : Handle}

/-! ## Allocations -/

def notices (position : Nat) (sizes : List Nat) (answers : List (Except PoolError Handle)) :
    List LayoutLine :=
  ((sizes.zip answers).zipIdx position).filterMap fun
    | ((size, .error error), position) => some (.notAllocated position size error)
    | _ => none

theorem allocateAll_eq (p : Pool) (position : Nat) (sizes : List Nat) :
    allocateAll p position sizes =
      ⟨notices position sizes (p.grants sizes),
        .ok ((p.grants sizes).map Except.toOption, (p.run (sizes.map .allocate)).2)⟩ := by
  induction sizes generalizing p position with
  | nil => rfl
  | cons size sizes ih =>
      have ran : (p.perform (.allocate size)).2 = (p.allocate size).2 := rfl
      rw [List.map_cons, Pool.run_cons, ran, Pool.grants, allocateAll]
      obtain ⟨result, q⟩ := p.allocate size
      cases result with
      | ok handle =>
          simp only [ih, bind_ok, pure_eq, List.append_nil]
          rfl
      | error error =>
          simp only [ih, print_bind, bind_ok, pure_eq, List.append_nil]
          rfl

/-! ## Positions that are freed -/

def returned (handles : List (Option Handle)) : List Nat → List Handle
  | [] => []
  | position :: rest =>
      match handles[position]? with
      | some (some handle) => handle :: returned (handles.set position none) rest
      | _ => returned handles rest

def emptied (handles : List (Option Handle)) (freed : List Nat) : List (Option Handle) :=
  freed.foldl (fun handles position => handles.set position none) handles

/-- The first mention of each position that has a handle or is none of an allocation. -/
def effective (handles : List (Option Handle)) (freed : List Nat) : List Nat :=
  (freed.filter fun position => handles[position]? ≠ some none).eraseDups

theorem set_of_idle (idle : ∀ handle, handles[position]? ≠ some (some handle)) :
    handles.set position none = handles := by
  apply List.ext_getElem?
  intro k
  rw [List.getElem?_set]
  split
  · next own =>
      subst own
      rcases found : handles[position]? with _ | _ | handle
      · simp [List.getElem?_eq_none_iff.mp found]
      · simp [(List.getElem?_eq_some_iff.mp found).1]
      · exact absurd found (idle handle)
  · rfl

theorem freeAll_effective (p : Pool) (handles : List (Option Handle)) (freed : List Nat) :
    freeAll p handles freed = freeAll p handles (effective handles freed) := by
  induction freed generalizing p handles with
  | nil => rfl
  | cons position rest ih =>
      cases found : handles[position]? with
      | none =>
          rw [effective, List.filter_cons_of_pos (by simp [found]), List.eraseDups_cons,
            freeAll, freeAll, found]
      | some slot =>
          cases slot with
          | none =>
              rw [effective, List.filter_cons_of_neg (by simp [found]), freeAll, found]
              exact ih p handles
          | some handle =>
              have inside := (List.getElem?_eq_some_iff.mp found).1
              have later : effective (handles.set position none) rest =
                  ((rest.filter fun other => handles[other]? ≠ some none).filter
                    fun other => !other == position).eraseDups := by
                rw [effective, List.filter_filter]
                congr 1
                refine List.filter_congr fun other _ => ?_
                rw [List.getElem?_set]
                by_cases own : position = other
                · simp [own.symm, inside]
                · simp [own, Ne.symm own]
              rw [effective, List.filter_cons_of_pos (by simp [found]), List.eraseDups_cons,
                freeAll, freeAll, found, ← later]
              simp only [ih]

theorem getElem?_emptied (handles : List (Option Handle)) (freed : List Nat) (k : Nat) :
    (emptied handles freed)[k]? =
      handles[k]?.map fun slot => if k ∈ freed then none else slot := by
  induction freed generalizing handles with
  | nil => simp [emptied]
  | cons position rest ih =>
      rw [show emptied handles (position :: rest) = emptied (handles.set position none) rest
        from rfl, ih, List.getElem?_set]
      by_cases own : position = k
      · subst own
        cases found : handles[position]? with
        | none => simp [List.getElem?_eq_none_iff.mp found]
        | some slot => simp [(List.getElem?_eq_some_iff.mp found).1]
      · simp [own, Ne.symm own]

theorem exists_portions_set (found : handles[position]? = some (some handle))
    (same : handles.length = sizes.length) :
    ∃ n, (portions handles sizes).Perm
      ((handle, n) :: portions (handles.set position none) sizes) := by
  induction handles generalizing position sizes with
  | nil => cases found
  | cons slot handles ih =>
      cases sizes with
      | nil => cases same
      | cons n sizes =>
          cases position with
          | zero =>
              cases found
              exact ⟨n, .refl _⟩
          | succ position =>
              obtain ⟨m, perm⟩ := ih found (Nat.succ.inj same)
              cases slot with
              | none => exact ⟨m, perm⟩
              | some other => exact ⟨m, (perm.cons _).trans (.swap ..)⟩

theorem exists_portions_perm (same : handles.length = sizes.length) (freed : List Nat) :
    ∃ back : List (Handle × Nat), back.map Prod.fst = returned handles freed ∧
      (portions handles sizes).Perm (back ++ portions (emptied handles freed) sizes) := by
  induction freed generalizing handles with
  | nil => exact ⟨[], rfl, .refl _⟩
  | cons position rest ih =>
      have same' : (handles.set position none).length = sizes.length := by
        rw [List.length_set, same]
      obtain ⟨back, names, perm⟩ := ih same'
      rw [returned]
      split
      · next handle found =>
          obtain ⟨n, first⟩ := exists_portions_set found same
          exact ⟨(handle, n) :: back, congrArg (handle :: ·) names, first.trans (perm.cons _)⟩
      · next idle =>
          rw [set_of_idle idle] at names perm
          refine ⟨back, names, ?_⟩
          rwa [emptied, List.foldl_cons, set_of_idle idle]

theorem mem_returned (handles : List (Option Handle)) (freed : List Nat) (handle : Handle) :
    handle ∈ returned handles freed ↔
      ∃ position ∈ freed, handles[position]? = some (some handle) := by
  induction freed generalizing handles with
  | nil => simp [returned]
  | cons position rest ih =>
      rw [returned]
      split
      · next other found =>
          have inside := (List.getElem?_eq_some_iff.mp found).1
          simp only [List.mem_cons, ih, List.getElem?_set]
          constructor
          · rintro (rfl | ⟨p, member, there⟩)
            · exact ⟨position, .inl rfl, found⟩
            · split at there
              · cases there
              · exact ⟨p, .inr member, there⟩
          · rintro ⟨p, rfl | member, there⟩
            · rw [found] at there
              cases there
              exact .inl rfl
            · by_cases own : position = p
              · subst own
                rw [found] at there
                cases there
                exact .inl rfl
              · exact .inr ⟨p, member, by rwa [if_neg own]⟩
      · next idle =>
          rw [ih, List.exists_mem_cons_iff, or_iff_right (idle handle)]

/-! ## Frees -/

theorem freeAll_eq (config : Config) (owes : heap.Owes (portions handles sizes))
    (same : handles.length = sizes.length) (slots : heap.layout.slotCount < UInt32.size)
    (freed : List Nat) :
    freeAll ⟨config, .ready heap⟩ handles freed =
      match freed.find? fun position => handles.length ≤ position with
      | some position => fail (.noSuchAllocation position handles.length)
      | none => pure ⟨config, .ready (heap.freeAll (returned handles freed))⟩ := by
  induction freed generalizing heap handles with
  | nil => rfl
  | cons position rest ih =>
      cases found : handles[position]? with
      | none =>
          have outside := List.getElem?_eq_none_iff.mp found
          rw [freeAll, found, List.find?_cons_of_pos (by simpa using outside)]
      | some slot =>
          have inside := (List.getElem?_eq_some_iff.mp found).1
          rw [List.find?_cons_of_neg (by simpa using inside)]
          cases slot with
          | none =>
              rw [freeAll, returned, found]
              exact ih owes same slots
          | some handle =>
              obtain ⟨n, perm⟩ := exists_portions_set found same
              have first := owes.perm perm
              obtain ⟨b, named, _⟩ := first.named _ List.mem_cons_self
              have freed : (⟨config, .ready heap⟩ : Pool).deallocate handle =
                  (.ok (), ⟨config, .ready (heap.freed handle.index.toNat)⟩) := by
                rw [Pool.deallocate, Pool.onHeap_of_ok _ rfl, Heap.deallocate_eq, named]
              have later := ih (first.freed slots) (by rw [List.length_set, same])
                (slotCount_freed heap _ ▸ slots)
              rw [List.length_set] at later
              rw [freeAll, returned, found]
              simp only [freed, orFailWith_ok, pure_bind]
              exact later

/-! ## The table -/

def table (p : Pool) : Session LayoutLine Unit := do
  print .header
  printBlocks (← orFail .pool p.blocks)
  print .blank
  print (.statistics (← orFail .pool p.statistics))
  orFail .pool p.check
  let _ ← orFailWith .pool p.close

def tableLines (heap : Heap) : List LayoutLine :=
  .header :: heap.layout.blocks.map .block ++ [.blank, .statistics heap.statistics]

theorem printBlocks_eq (blocks : List Block) :
    printBlocks blocks = ⟨blocks.map .block, .ok ()⟩ := by
  induction blocks with
  | nil => rfl
  | cons b rest ih =>
      rw [printBlocks, print_bind, ih]
      rfl

theorem table_eq {cells : List Cell} (h : heap.Sound cells)
    (bounded : heap.size < Layout.addressBound) :
    table ⟨config, .ready heap⟩ = ⟨tableLines heap, .ok ()⟩ := by
  have blocks : (⟨config, .ready heap⟩ : Pool).blocks = .ok heap.layout.blocks := rfl
  have statistics : (⟨config, .ready heap⟩ : Pool).statistics = .ok heap.statistics := rfl
  have check : (⟨config, .ready heap⟩ : Pool).check = .ok () := h.check_eq bounded
  have close : (⟨config, .ready heap⟩ : Pool).close =
      (.ok heap.statistics, ⟨config, .closed⟩) := rfl
  simp only [table, blocks, statistics, check, close, orFail_ok, orFailWith_ok,
    printBlocks_eq, print_bind, bind_ok, pure_eq]
  rfl

/-! ## The whole command -/

def kept (sizes : List Nat) (answers : List (Except PoolError Handle)) (freed : List Nat) :
    List Nat :=
  ((sizes.zip answers).zipIdx.filter fun entry => entry.1.2.isOk && entry.2 ∉ freed).map
    fun entry => entry.1.1

def refused (answers : List (Except PoolError Handle)) (position : Nat) : Bool :=
  answers[position]?.any fun answer => !answer.isOk

theorem map_snd_portions {answers : List (Except PoolError Handle)} (sizes : List Nat)
    (k : Nat) (read : ∀ i : Nat, handles[i]? =
      answers[i]?.map fun answer => if k + i ∈ freed then none else answer.toOption) :
    (portions handles sizes).map Prod.snd =
      (((sizes.zip answers).zipIdx k).filter fun entry =>
        entry.1.2.isOk && entry.2 ∉ freed).map fun entry => entry.1.1 := by
  induction answers generalizing handles sizes k with
  | nil =>
      have none : handles = [] := by simpa using read 0
      simp [none, portions]
  | cons answer answers ih =>
      cases handles with
      | nil => simpa using read 0
      | cons slot handles =>
          cases sizes with
          | nil => rfl
          | cons size sizes =>
              have first : slot = if k ∈ freed then none else answer.toOption := by
                simpa using read 0
              have others (i : Nat) : handles[i]? = answers[i]?.map fun answer =>
                  if k + 1 + i ∈ freed then none else answer.toOption := by
                simpa [Nat.add_assoc, Nat.add_comm 1] using read (i + 1)
              have later := ih sizes (k + 1) others
              rw [List.zip_cons_cons, List.zipIdx_cons, List.filter_cons, first]
              by_cases given : k ∈ freed
              · simp [given, later]
              · cases answer with
                | error error =>
                    simp [given, later, Except.toOption, Except.isOk, Except.toBool]
                | ok handle =>
                    simp [given, later, Except.toOption, Except.isOk, Except.toBool]

theorem map_snd_emptied (answers : List (Except PoolError Handle)) (sizes freed : List Nat) :
    (portions (emptied (answers.map Except.toOption) freed) sizes).map Prod.snd =
      kept sizes answers freed := by
  refine map_snd_portions sizes 0 fun i => ?_
  rw [getElem?_emptied, List.getElem?_map, Option.map_map, Nat.zero_add]
  rfl

def fresh (config : Config) (size : Nat) : Pool := ⟨config, .ready (.ofSize size config)⟩

/-- How the command ends and what it prints, for any positions that are to be freed. -/
structure Reports (config : Config) (size : Nat) (allocated freed : List Nat) : Prop where
  succeeds_iff : (run config size allocated freed).result = .ok () ↔
    ∀ position ∈ freed, position < allocated.length
  table : (∀ position ∈ freed, position < allocated.length) →
    ∃ blocks statistics,
      (run config size allocated freed).lines =
        notices 0 allocated ((fresh config size).grants allocated) ++
          (.header :: blocks.map .block ++ [.blank, .statistics statistics]) ∧
      Partition blocks size ∧
      ((blocks.filter fun b => !b.free).map Block.size).Perm
        (kept allocated ((fresh config size).grants allocated) freed)
  outside : ∀ position, freed.find? (fun p => allocated.length ≤ p) = some position →
    run config size allocated freed =
      ⟨notices 0 allocated ((fresh config size).grants allocated),
        .error (.noSuchAllocation position allocated.length)⟩
  idle : run config size allocated freed = run config size allocated
    (freed.filter fun p => !refused ((fresh config size).grants allocated) p).eraseDups
  unordered : config.coalesce = .bidirectional →
    (∀ position ∈ freed, position < allocated.length) →
    ∀ freed', (∀ position, position ∈ freed ↔ position ∈ freed') →
      run config size allocated freed' = run config size allocated freed

theorem length_grants (p : Pool) (sizes : List Nat) : (p.grants sizes).length = sizes.length := by
  induction sizes generalizing p with
  | nil => rfl
  | cons size sizes ih => exact congrArg (· + 1) (ih _)

section Run

variable {allocated : List Nat}

def stocked (config : Config) (size : Nat) (allocated : List Nat) : Heap :=
  (allocated.map .allocate).foldl Heap.serve (.ofSize size config)

def slots (config : Config) (size : Nat) (allocated : List Nat) : List (Option Handle) :=
  ((fresh config size).grants allocated).map Except.toOption

theorem length_slots (config : Config) (size : Nat) (allocated : List Nat) :
    (slots config size allocated).length = allocated.length := by
  rw [slots, List.length_map, length_grants]

theorem run_allocated (config : Config) (size : Nat) (allocated : List Nat) :
    ((fresh config size).run (allocated.map .allocate)).2 =
      ⟨config, .ready (stocked config size allocated)⟩ :=
  Pool.run_ready (by simp)

theorem run_eq (valid : config.validate = .ok ()) (positive : 0 < size)
    (allocated freed : List Nat) :
    run config size allocated freed =
      ⟨notices 0 allocated ((fresh config size).grants allocated) ++
          (freeAll ⟨config, .ready (stocked config size allocated)⟩
            (slots config size allocated) freed >>= table).lines,
        (freeAll ⟨config, .ready (stocked config size allocated)⟩
          (slots config size allocated) freed >>= table).result⟩ := by
  rw [run, Pool.withConfig_of_valid valid, orFail_ok, pure_bind, Pool.setUp_of_pos positive,
    orFailWith_ok, pure_bind]
  simp only [allocateAll_eq, bind_ok]
  rw [show (⟨config, .ready (.ofSize size config)⟩ : Pool) = fresh config size from rfl,
    run_allocated]
  rfl

theorem find?_outside_eq_none_iff :
    freed.find? (fun position => allocated.length ≤ position) = none ↔
      ∀ position ∈ freed, position < allocated.length := by
  simp [List.find?_eq_none]

variable (few : ((fresh config size).run (allocated.map .allocate)).2.slotCount < UInt32.size)

include few

theorem slotCount_stocked :
    (stocked config size allocated).layout.slotCount < UInt32.size := by
  rw [run_allocated] at few
  exact few

theorem owes_stocked :
    (stocked config size allocated).Owes (portions (slots config size allocated) allocated) := by
  have owes := (owes_ofSize size config).run_allocate few
  rwa [List.append_nil] at owes

theorem returned_live (freed : List Nat) :
    (returned (slots config size allocated) freed).Nodup ∧
      ∀ handle ∈ returned (slots config size allocated) freed,
        ∃ b, (stocked config size allocated).range? handle = some b := by
  obtain ⟨back, names, perm⟩ :=
    exists_portions_perm (length_slots config size allocated) freed
  have owes := (owes_stocked few).perm perm
  have nodup := owes.nodup (slotCount_stocked few)
  rw [List.map_append, names] at nodup
  refine ⟨(List.nodup_append.mp nodup).1, fun handle member => ?_⟩
  rw [← names, List.mem_map] at member
  obtain ⟨entry, there, rfl⟩ := member
  obtain ⟨b, named, _⟩ := owes.named entry (List.mem_append_left _ there)
  exact ⟨b, named⟩

theorem owes_freed (freed : List Nat) :
    ((stocked config size allocated).freeAll (returned (slots config size allocated) freed)).Owes
      (portions (emptied (slots config size allocated) freed) allocated) := by
  obtain ⟨back, names, perm⟩ :=
    exists_portions_perm (length_slots config size allocated) freed
  rw [← names]
  exact ((owes_stocked few).perm perm).freeAll (slotCount_stocked few)

theorem run_outside (valid : config.validate = .ok ()) (positive : 0 < size)
    (outside : freed.find? (fun p => allocated.length ≤ p) = some position) :
    run config size allocated freed =
      ⟨notices 0 allocated ((fresh config size).grants allocated),
        .error (.noSuchAllocation position allocated.length)⟩ := by
  have length := length_slots config size allocated
  have freedAll := freeAll_eq config (owes_stocked few) length
    (slotCount_stocked few) freed
  rw [length, outside] at freedAll
  rw [run_eq valid positive, freedAll, fail_bind, fail_eq, List.append_nil]

theorem exists_sound_freed (freed : List Nat) :
    ∃ cells, ((stocked config size allocated).freeAll
        (returned (slots config size allocated) freed)).Sound cells ∧
      ((stocked config size allocated).freeAll
        (returned (slots config size allocated) freed)).size = size := by
  obtain ⟨cells, sound, _⟩ := (owes_freed few freed).lends
  obtain ⟨_, _, total, _⟩ := (sound_ofSize size config).foldl_serve (allocated.map .allocate)
  rw [size_ofSize] at total
  exact ⟨cells, sound, (size_freeAll ..).trans total⟩

theorem run_inside (valid : config.validate = .ok ()) (positive : 0 < size)
    (bounded : size < Layout.addressBound)
    (inside : ∀ position ∈ freed, position < allocated.length) :
    run config size allocated freed =
      ⟨notices 0 allocated ((fresh config size).grants allocated) ++
          tableLines ((stocked config size allocated).freeAll
            (returned (slots config size allocated) freed)), .ok ()⟩ := by
  have length := length_slots config size allocated
  have freedAll := freeAll_eq config (owes_stocked few) length
    (slotCount_stocked few) freed
  obtain ⟨cells, sound, total⟩ := exists_sound_freed few freed
  rw [length, find?_outside_eq_none_iff.mpr inside] at freedAll
  rw [run_eq valid positive, freedAll, pure_bind, table_eq sound (total.trans_lt bounded)]

theorem tableLines_congr (merges : config.coalesce = .bidirectional) {freed' : List Nat}
    (same : ∀ position, position ∈ freed ↔ position ∈ freed') :
    tableLines ((stocked config size allocated).freeAll
        (returned (slots config size allocated) freed')) =
      tableLines ((stocked config size allocated).freeAll
        (returned (slots config size allocated) freed)) := by
  have start := sound_ofSize size config
  have coalesced := start.coalesced_run merges (coalesced_ofSize size config)
    (allocated.map .allocate)
  obtain ⟨cells, sound, _, config', _⟩ := start.foldl_serve (allocated.map .allocate)
  rw [sound.chains.blocks_eq] at coalesced
  obtain ⟨nodup, live⟩ := returned_live few freed
  obtain ⟨nodup', live'⟩ := returned_live few freed'
  have perm : (returned (slots config size allocated) freed').Perm
      (returned (slots config size allocated) freed) := by
    rw [List.perm_ext_iff_of_nodup nodup' nodup]
    intro handle
    rw [mem_returned, mem_returned]
    simp only [same]
  have merges' : (stocked config size allocated).config.coalesce = .bidirectional := by
    rw [← merges]
    exact congrArg Config.coalesce config'
  have alike := (sound.freeAll merges' coalesced live' nodup').alike
    (sound.freeAll merges' coalesced live nodup) perm
  have blocks := alike.blocks_eq
  have statistics := alike.statistics_eq
  rw [tableLines, tableLines]
  exact congrArg₂ (fun blocks statistics => LayoutLine.header ::
    List.map LayoutLine.block blocks ++ [.blank, .statistics statistics]) blocks statistics

/-- Whatever is to be allocated and freed, the table shows what was allocated and not freed. -/
theorem run_reports (valid : config.validate = .ok ()) (positive : 0 < size)
    (bounded : size < Layout.addressBound) (freed : List Nat) :
    Reports config size allocated freed := by
  have fails : ¬ (∀ position ∈ freed, position < allocated.length) →
      ∃ position, freed.find? (fun p => allocated.length ≤ p) = some position := by
    rw [← find?_outside_eq_none_iff]
    exact Option.ne_none_iff_exists'.mp
  constructor
  · constructor
    · intro succeeded
      by_contra outside
      obtain ⟨position, found⟩ := fails outside
      rw [run_outside few valid positive found] at succeeded
      cases succeeded
    · intro inside
      rw [run_inside few valid positive bounded inside]
  · intro inside
    obtain ⟨cells, sound, total⟩ := exists_sound_freed few freed
    have sizes := (owes_freed few freed).usedSizes_perm
      ((slotCount_freeAll ..).trans_lt (slotCount_stocked few))
    rw [slots, map_snd_emptied] at sizes
    have partition := sound.partition (positive.trans_eq total.symm)
    rw [total] at partition
    rw [run_inside few valid positive bounded inside]
    exact ⟨_, _, rfl, partition, sizes⟩
  · intro position found
    exact run_outside few valid positive found
  · have effect : effective (slots config size allocated) freed = (freed.filter fun p =>
        !refused ((fresh config size).grants allocated) p).eraseDups := by
      rw [effective]
      congr 1
      refine List.filter_congr fun p _ => ?_
      rw [slots, List.getElem?_map, refused]
      rcases ((fresh config size).grants allocated)[p]? with _ | _ | _ <;> rfl
    rw [run_eq valid positive, run_eq valid positive, freeAll_effective, effect]
  · intro merges inside freed' same
    have inside' : ∀ position ∈ freed', position < allocated.length :=
      fun position member => inside position ((same position).mpr member)
    rw [run_inside few valid positive bounded inside,
      run_inside few valid positive bounded inside', tableLines_congr few merges same]

end Run

theorem run_reports_repeated : Reports .debug 16 [4, 20, 0, 8] [3, 1, 0, 3] :=
  run_reports (by decide +kernel) rfl (by decide) (by decide) [3, 1, 0, 3]

end BlockPool.CommandLine.LayoutReport
