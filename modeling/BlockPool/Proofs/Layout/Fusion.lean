import BlockPool.Proofs.Layout.Coalescence

/-!
# Fused blocks

Fusing merges every run of free neighbours into its first block.  Under the
bidirectional policy a release fuses the cells with one more of them free.
Whether a list is fused early or late makes no difference, so what several
releases leave is fused once, from the cells with all of them free.
-/

namespace BlockPool.Layout

/-! ## Fusing tagged blocks -/

section Tagged

variable {α β : Type} {x y : α × Block} {xs ys : List (α × Block)}

def join (x y : α × Block) : α × Block := (x.1, { x.2 with size := x.2.size + y.2.size })

def fuseCons (x : α × Block) : List (α × Block) → List (α × Block)
  | [] => [x]
  | y :: rest => if x.2.free && y.2.free then join x y :: rest else x :: y :: rest

def fuse (xs : List (α × Block)) : List (α × Block) := xs.foldr fuseCons []

@[simp] theorem fuse_cons (x : α × Block) (xs : List (α × Block)) :
    fuse (x :: xs) = fuseCons x (fuse xs) := rfl

theorem fuse_append (xs ys : List (α × Block)) :
    fuse (xs ++ ys) = xs.foldr fuseCons (fuse ys) :=
  List.foldr_append

theorem fuseCons_of_used (used : x.2.free = false) (xs : List (α × Block)) :
    fuseCons x xs = x :: xs := by
  cases xs <;> simp [fuseCons, used]

theorem fuseCons_of_apart
    (apart : ∀ y, xs.head? = some y → x.2.free = true → y.2.free = false) :
    fuseCons x xs = x :: xs := by
  cases xs with
  | nil => rfl
  | cons y rest =>
      have used := apart y rfl
      rw [fuseCons, if_neg]
      simpa using used

theorem fuseCons_join (freeLeft : x.2.free = true) (freeRight : y.2.free = true)
    (xs : List (α × Block)) : fuseCons (join x y) xs = fuseCons x (fuseCons y xs) := by
  cases xs with
  | nil => simp [fuseCons, freeLeft, freeRight]
  | cons z rest =>
      cases next : z.2.free with
      | false => simp [fuseCons, freeLeft, freeRight, next]
      | true =>
          simp [fuseCons, freeLeft, freeRight, next, join, Nat.add_assoc]

theorem covers_fuseCons {start stop : Nat}
    (h : Covers start ((x :: xs).map Prod.snd) stop) :
    Covers start ((fuseCons x xs).map Prod.snd) stop := by
  cases xs with
  | nil => exact h
  | cons y rest =>
      rw [fuseCons]
      split
      · obtain ⟨offset, meets, tail⟩ := h
        refine ⟨offset, ?_⟩
        simp only [join]
        rwa [← Nat.add_assoc, ← meets]
      · exact h

theorem covers_fuse {start stop : Nat} (h : Covers start (xs.map Prod.snd) stop) :
    Covers start ((fuse xs).map Prod.snd) stop := by
  induction xs generalizing start with
  | nil => exact h
  | cons x rest ih => exact covers_fuseCons ⟨h.1, ih h.2⟩

theorem coalesced_fuseCons (h : Coalesced (xs.map Prod.snd)) :
    Coalesced ((fuseCons x xs).map Prod.snd) := by
  cases xs with
  | nil => exact .singleton _
  | cons y rest =>
      rw [fuseCons]
      split
      · next both =>
          simp only [Bool.and_eq_true] at both
          exact h.congr (by simp [join, both.1, both.2])
      · next apart =>
          refine List.isChain_cons_cons.mpr ⟨fun free => ?_, h⟩
          simpa [free] using apart

theorem coalesced_fuse (xs : List (α × Block)) : Coalesced ((fuse xs).map Prod.snd) := by
  induction xs with
  | nil => exact .nil
  | cons x rest ih => exact coalesced_fuseCons ih

theorem foldr_fuseCons_of_coalesced
    (h : Coalesced ((xs ++ [y]).map Prod.snd)) (ys : List (α × Block)) :
    xs.foldr fuseCons (y :: ys) = xs ++ y :: ys := by
  induction xs with
  | nil => rfl
  | cons x rest ih =>
      rw [List.foldr_cons, ih h.of_cons]
      refine fuseCons_of_apart fun z head => ?_
      have neighbour : z.2 ∈ ((rest ++ [y]).map Prod.snd).head? := by
        cases rest <;> cases head <;> rfl
      exact (List.isChain_cons.mp h).1 z.2 neighbour

theorem fuse_of_coalesced (h : Coalesced (xs.map Prod.snd)) : fuse xs = xs := by
  rcases List.eq_nil_or_concat xs with rfl | ⟨front, x, rfl⟩
  · rfl
  · rw [List.concat_eq_append] at h ⊢
    rw [fuse_append]
    exact foldr_fuseCons_of_coalesced h []

/-! ## Changing the blocks before and after -/

variable {f : α × Block → β × Block}

/-- The change does the same to a fused block as to its two parts. -/
def Respects (f : α × Block → β × Block) : Prop :=
  ∀ x y, x.2.free = true → y.2.free = true →
    (f x).2.free = true ∧ f (join x y) = join (f x) (f y)

theorem fuse_map_fuseCons (respects : Respects f) (x : α × Block)
    (xs : List (α × Block)) :
    fuse ((fuseCons x xs).map f) = fuseCons (f x) (fuse (xs.map f)) := by
  cases xs with
  | nil => rfl
  | cons y rest =>
      rw [fuseCons]
      split
      · next both =>
          simp only [Bool.and_eq_true] at both
          obtain ⟨free, joined⟩ := respects x y both.1 both.2
          have free' := (respects y y both.2 both.2).1
          rw [List.map_cons, fuse_cons, joined, fuseCons_join free free']
          rfl
      · rfl

/-- What is fused in the end need not have been fused before. -/
theorem fuse_map_fuse (respects : Respects f) (xs : List (α × Block)) :
    fuse ((fuse xs).map f) = fuse (xs.map f) := by
  induction xs with
  | nil => rfl
  | cons x rest ih => rw [fuse_cons, fuse_map_fuseCons respects, ih, List.map_cons, fuse_cons]

theorem map_fuse (respects : Respects f) (flags : ∀ x, (f x).2.free = x.2.free)
    (xs : List (α × Block)) : (fuse xs).map f = fuse (xs.map f) := by
  have fused : Coalesced (((fuse xs).map f).map Prod.snd) :=
    (coalesced_fuse xs).congr (by simp [Function.comp_def, flags])
  rw [← fuse_map_fuse respects, fuse_of_coalesced fused]

end Tagged

/-! ## Releases -/

variable {before after cells : List Cell} {i : Nat} {b : Block} {slots slots' : List Nat}

theorem mergeNext_eq (cell : Cell) (free : cell.2.free = true) (after : List Cell) :
    mergeNext cell after = fuseCons cell after := by
  cases after <;> simp [mergeNext, fuseCons, grow, join, free]

theorem mergePrev_eq (h : Coalesced (before.map Prod.snd)) {cell : Cell}
    (free : cell.2.free = true) (rest : List Cell) :
    mergePrev before (cell :: rest) = before.foldr fuseCons (cell :: rest) := by
  rcases List.eq_nil_or_concat before with rfl | ⟨front, prev, rfl⟩
  · rfl
  · rw [List.concat_eq_append] at h ⊢
    rw [mergePrev_append, List.foldr_append, List.foldr_cons, List.foldr_nil]
    split
    · next absorbed =>
        have merged : fuseCons prev (cell :: rest) = grow prev cell.2.size :: rest := by
          simp [fuseCons, absorbed, free, join, grow]
        have grown : Coalesced ((front ++ [grow prev cell.2.size]).map Prod.snd) :=
          h.congr (by simp [grow])
        rw [merged, foldr_fuseCons_of_coalesced grown]
    · next used =>
        rw [fuseCons_of_used (by simpa using used), foldr_fuseCons_of_coalesced h]

theorem released_eq_fuse (h : Coalesced ((before ++ (i, b) :: after).map Prod.snd)) :
    released .bidirectional before i b after =
      fuse (before ++ (i, { b with free := true }) :: after) := by
  rw [List.map_append, List.map_cons, Coalesced.split_iff] at h
  obtain ⟨c, rest, cells, free⟩ := exists_mergeNext_eq i { b with free := true } after
  have merged := mergeNext_eq (i, { b with free := true }) rfl after
  rw [released, cells, mergePrev_eq h.1.of_concat free, fuse_append, fuse_cons,
    fuse_of_coalesced h.2.of_cons, ← merged, cells]

def vacate (slots : List Nat) (cell : Cell) : Cell :=
  if cell.1 ∈ slots then (cell.1, { cell.2 with free := true }) else cell

theorem vacate_of_free {cell : Cell} (free : cell.2.free = true) : vacate slots cell = cell := by
  obtain ⟨i, b⟩ := cell
  obtain ⟨offset, size, flag⟩ := b
  cases free
  simp [vacate]

theorem respects_vacate (slots : List Nat) : Respects (vacate slots) := by
  intro x y free free'
  have joined : (join x y).2.free = true := free
  rw [vacate_of_free free, vacate_of_free free', vacate_of_free joined]
  exact ⟨free, rfl⟩

theorem vacate_nil (cells : List Cell) : cells.map (vacate []) = cells := by
  refine (List.map_congr_left fun cell _ => ?_).trans (List.map_id cells)
  exact if_neg List.not_mem_nil

theorem vacate_cons (i : Nat) (slots : List Nat) (cells : List Cell) :
    (cells.map (vacate [i])).map (vacate slots) = cells.map (vacate (i :: slots)) := by
  rw [List.map_map]
  refine List.map_congr_left fun cell _ => ?_
  by_cases own : cell.1 = i
  · simp [vacate, own]
  · simp [vacate, own]

theorem vacate_congr (same : ∀ i, i ∈ slots ↔ i ∈ slots') (cells : List Cell) :
    cells.map (vacate slots) = cells.map (vacate slots') :=
  List.map_congr_left fun cell _ => by simp only [vacate, same]

theorem vacate_split (nodup : ((before ++ (i, b) :: after).map Prod.fst).Nodup) :
    (before ++ (i, b) :: after).map (vacate [i]) =
      before ++ (i, { b with free := true }) :: after := by
  obtain ⟨notBefore, notAfter⟩ := not_mem_of_split nodup
  have outside {cells : List Cell} (other : i ∉ cells.map Prod.fst) :
      cells.map (vacate [i]) = cells := by
    refine (List.map_congr_left fun cell member => ?_).trans (List.map_id cells)
    have distinct : cell.1 ≠ i := fun own => other (own ▸ List.mem_map_of_mem member)
    simp [vacate, distinct]
  simp [vacate, outside notBefore, outside notAfter]

end BlockPool.Layout
