import BlockPool.Proofs.Layout.Fusion

/-!
# Views without empty free blocks

A view shows the blocks of some cells together with the names that the used
ones go by, and leaves out the free blocks of size zero.  What a claim of one
address or more, and a release of a block of such a size, make of the cells can
be told from the view alone, so empty free blocks do not matter to them.
-/

namespace BlockPool

def Block.isShown (b : Block) : Bool := !(b.free && b.size == 0)

theorem Block.isShown_of_pos {b : Block} (positive : 0 < b.size) : b.isShown = true := by
  simp [isShown, Nat.ne_of_gt positive]

theorem Block.isShown_of_used {b : Block} (used : b.free = false) : b.isShown = true := by
  simp [isShown, used]

theorem Block.isShown_eq_false_iff {b : Block} :
    b.isShown = false ↔ b.free = true ∧ b.size = 0 := by
  simp [isShown]

namespace Layout

/-! ## Fusing what is shown -/

section Tagged

variable {α : Type} {x y : α × Block} {xs ys : List (α × Block)}

def shown (xs : List (α × Block)) : List (α × Block) := xs.filter fun x => x.2.isShown

@[simp] theorem shown_append (xs ys : List (α × Block)) :
    shown (xs ++ ys) = shown xs ++ shown ys :=
  List.filter_append ..

theorem shown_cons (x : α × Block) (xs : List (α × Block)) :
    shown (x :: xs) = if x.2.isShown then x :: shown xs else shown xs := by
  simp [shown, List.filter_cons]

theorem shown_cons_of_shown (seen : x.2.isShown = true) (xs : List (α × Block)) :
    shown (x :: xs) = x :: shown xs := by
  rw [shown_cons, if_pos seen]

theorem head_shown_used (used : ∀ y ∈ xs.head?, y.2.free = false) :
    ∀ y ∈ (shown xs).head?, y.2.free = false := by
  cases xs with
  | nil => simp [shown]
  | cons y rest =>
      rw [shown_cons_of_shown (Block.isShown_of_used (used y rfl))]
      simpa using used

theorem shown_join_cons (free : x.2.free = true) (next : y.2.free = true) (tag : x.1 = y.1)
    (meet : x.2.offset + x.2.size = y.2.offset)
    (apart : ∀ z ∈ xs.head?, z.2.free = false) :
    shown (join x y :: xs) =
      if x.2.isShown then fuseCons x (shown (y :: xs)) else shown (y :: xs) := by
  obtain ⟨tx, offset, width, flag⟩ := x
  obtain ⟨ty, offset', width', flag'⟩ := y
  cases free
  cases next
  cases tag
  simp only at meet
  rcases Nat.eq_zero_or_pos width with rfl | positive
  · -- The joined block is the second one.
    cases meet
    simp [join, Block.isShown]
  · have seen : Block.isShown ⟨offset, width, true⟩ = true := Block.isShown_of_pos positive
    have joined : Block.isShown ⟨offset, width + width', true⟩ = true :=
      Block.isShown_of_pos (Nat.add_pos_left positive _)
    rw [if_pos seen, join, shown_cons_of_shown joined, shown_cons]
    rcases Nat.eq_zero_or_pos width' with rfl | positive'
    · have head := head_shown_used apart
      rw [if_neg (by simp [Block.isShown]), fuseCons_of_apart fun y is _ => head y is]
      rfl
    · rw [if_pos (Block.isShown_of_pos positive')]
      rfl

/-- An empty free block in front is the same as none, if it has the tag of the next one
and begins where that begins. -/
theorem shown_fuseCons (coalesced : Coalesced (xs.map Prod.snd))
    (meets : ∀ y ∈ xs.head?, x.2.free = true → y.2.free = true →
      x.1 = y.1 ∧ x.2.offset + x.2.size = y.2.offset) :
    shown (fuseCons x xs) = if x.2.isShown then fuseCons x (shown xs) else shown xs := by
  by_cases apart : ∀ y ∈ xs.head?, x.2.free = true → y.2.free = false
  · have apart' : ∀ y ∈ (shown xs).head?, x.2.free = true → y.2.free = false := by
      intro y head free
      exact head_shown_used (fun z there => apart z there free) y head
    rw [fuseCons_of_apart apart, fuseCons_of_apart apart', shown_cons]
  · obtain ⟨y, rest, rfl⟩ : ∃ y rest, xs = y :: rest := by
      cases xs with
      | nil => simp at apart
      | cons y rest => exact ⟨y, rest, rfl⟩
    obtain ⟨free, next⟩ : x.2.free = true ∧ y.2.free = true := by simpa using apart
    obtain ⟨tag, meet⟩ := meets y rfl free next
    have behind : ∀ z ∈ rest.head?, z.2.free = false := by
      intro z head
      cases rest with
      | nil => simp at head
      | cons z' rest =>
          cases head
          exact (List.isChain_cons_cons.mp coalesced).1 next
    rw [← shown_join_cons free next tag meet behind, fuseCons]
    simp [free, next]

theorem tag_of_mem_fuse {tag : α} (tags : ∀ x ∈ xs, x.2.free = true → x.1 = tag) :
    ∀ x ∈ fuse xs, x.2.free = true → x.1 = tag := by
  induction xs with
  | nil => simp [fuse]
  | cons x rest ih =>
      rw [List.forall_mem_cons] at tags
      have later := ih tags.2
      rw [fuse_cons]
      cases fused : fuse rest with
      | nil => simpa [fuseCons] using tags.1
      | cons y others =>
          rw [fused, List.forall_mem_cons] at later
          rw [fuseCons]
          split
          · next both =>
              simp only [Bool.and_eq_true] at both
              exact List.forall_mem_cons.mpr ⟨fun _ => tags.1 both.1, later.2⟩
          · exact List.forall_mem_cons.mpr ⟨tags.1, List.forall_mem_cons.mpr later⟩

theorem shown_fuse {start stop : Nat} {tag : α} (covers : Covers start (xs.map Prod.snd) stop)
    (tags : ∀ x ∈ xs, x.2.free = true → x.1 = tag) : shown (fuse xs) = fuse (shown xs) := by
  induction xs generalizing start with
  | nil => rfl
  | cons x rest ih =>
      rw [List.forall_mem_cons] at tags
      have behind := covers_fuse covers.2
      have meets : ∀ y ∈ (fuse rest).head?, x.2.free = true → y.2.free = true →
          x.1 = y.1 ∧ x.2.offset + x.2.size = y.2.offset := by
        intro y head free next
        have same := tag_of_mem_fuse tags.2 y (List.mem_of_head? head) next
        refine ⟨(tags.1 free).trans same.symm, ?_⟩
        cases fused : fuse rest with
        | nil => simp [fused] at head
        | cons z others =>
            rw [fused] at head behind
            cases head
            exact behind.1.symm
      rw [fuse_cons, shown_fuseCons (coalesced_fuse rest) meets, ih covers.2 tags.2, shown_cons]
      split <;> rfl

end Tagged

/-! ## Views of cells -/

variable {names names' : Nat → Nat → Prop} {cells cells' before after : List Cell} {i : Nat}
  {b : Block} {size : Nat}

def face (names : Nat → Nat → Prop) (cell : Cell) : (Nat → Prop) × Block :=
  (if cell.2.free then fun _ => False else names cell.1, cell.2)

def view (names : Nat → Nat → Prop) (cells : List Cell) : List ((Nat → Prop) × Block) :=
  shown (cells.map (face names))

@[simp] theorem view_append (names : Nat → Nat → Prop) (xs ys : List Cell) :
    view names (xs ++ ys) = view names xs ++ view names ys := by
  rw [view, List.map_append, shown_append]
  rfl

theorem view_cons (seen : b.isShown = true) (names : Nat → Nat → Prop) (i : Nat)
    (cells : List Cell) :
    view names ((i, b) :: cells) = face names (i, b) :: view names cells :=
  shown_cons_of_shown seen _

theorem face_of_free (free : b.free = true) (names : Nat → Nat → Prop) (i : Nat) :
    face names (i, b) = (fun _ => False, b) := by
  simp [face, free]

theorem face_of_used (used : b.free = false) (names : Nat → Nat → Prop) (i : Nat) :
    face names (i, b) = (names i, b) := by
  simp [face, used]

theorem respects_face (names : Nat → Nat → Prop) : Respects (face names) := by
  intro x y free free'
  have joined : (join x y).2.free = true := free
  simp [face, join, free, free']

theorem view_congr (same : ∀ cell ∈ usedCells cells, names' cell.1 = names cell.1) :
    view names' cells = view names cells := by
  refine congrArg shown (List.map_congr_left fun cell member => ?_)
  cases free : cell.2.free with
  | true => simp [face, free]
  | false => simp [face, same cell (mem_usedCells.mpr ⟨member, free⟩)]

theorem map_view (names : Nat → Nat → Prop) (cells : List Cell) :
    (view names cells).map Prod.snd = (cells.map Prod.snd).filter Block.isShown := by
  rw [view, shown, List.filter_map, List.map_map, List.filter_map]
  rfl

theorem mem_of_view (same : view names cells = view names' cells') (member : (i, b) ∈ cells)
    (seen : b.isShown = true) : b ∈ cells'.map Prod.snd := by
  have there : b ∈ (view names cells).map Prod.snd := by
    rw [map_view, List.mem_filter]
    exact ⟨List.mem_map_of_mem member, seen⟩
  rw [same, map_view, List.mem_filter] at there
  exact there.1

theorem exists_split_of_view
    (same : view names (before ++ (i, b) :: after) = view names' cells')
    (seen : b.isShown = true) :
    ∃ front j back, cells' = front ++ (j, b) :: back ∧
      view names before = view names' front ∧ view names after = view names' back ∧
      (b.free = false → names i = names' j) := by
  rw [view_append, view_cons seen] at same
  obtain ⟨xs, ys, whole, left, others⟩ := List.filter_eq_append_iff.mp same.symm
  obtain ⟨hidden, zs, rfl, unseen, _, right⟩ := List.filter_eq_cons_iff.mp others
  obtain ⟨front, rest, rfl, rfl, tail⟩ := List.map_eq_append_iff.mp whole
  obtain ⟨between, rest, rfl, rfl, last⟩ := List.map_eq_append_iff.mp tail
  obtain ⟨⟨j, c⟩, back, rfl, faces, rfl⟩ := List.map_eq_cons_iff.mp last
  obtain rfl : c = b := congrArg Prod.snd faces
  have none : view names' between = [] := List.filter_eq_nil_iff.mpr unseen
  refine ⟨front ++ between, j, back, (List.append_assoc ..).symm, ?_, right.symm, fun used => ?_⟩
  · rw [view_append, none, List.append_nil]
    exact left.symm
  · rw [face_of_used used, face_of_used used] at faces
    exact (congrArg Prod.fst faces).symm

/-! ## What the shown blocks amount to -/

theorem foldr_shown {op : Nat → Nat → Nat} (neutral : ∀ n, op 0 n = n) (blocks : List Block) :
    (((blocks.filter Block.isShown).filter Block.free).map Block.size).foldr op 0 =
      ((blocks.filter Block.free).map Block.size).foldr op 0 := by
  induction blocks with
  | nil => rfl
  | cons b rest ih =>
      cases seen : b.isShown with
      | true =>
          rw [List.filter_cons_of_pos seen]
          simp only [List.filter_cons]
          split
          · simp only [List.map_cons, List.foldr_cons, ih]
          · exact ih
      | false =>
          obtain ⟨free, empty⟩ := Block.isShown_eq_false_iff.mp seen
          rw [List.filter_cons_of_neg (by simp [seen]), ih]
          simp [free, empty, neutral]

theorem usedTotal_shown (blocks : List Block) :
    usedTotal (blocks.filter Block.isShown) = usedTotal blocks := by
  induction blocks with
  | nil => rfl
  | cons b rest ih =>
      cases seen : b.isShown with
      | true => rw [List.filter_cons_of_pos seen, usedTotal, usedTotal, ih]
      | false =>
          have free := (Block.isShown_eq_false_iff.mp seen).1
          rw [List.filter_cons_of_neg (by simp [seen]), ih, usedTotal, free]
          simp

variable {l l' : Layout}

theorem largestFree_of_shown
    (same : l.blocks.filter Block.isShown = l'.blocks.filter Block.isShown) :
    l.largestFree = l'.largestFree := by
  rw [largestFree, largestFree, freeSizes, freeSizes, ← foldr_shown Nat.zero_max, same,
    foldr_shown Nat.zero_max]

theorem unfit_of_view (same : view names cells = view names' cells') (positive : 0 < size)
    (unfit : ∀ cell ∈ cells, fits size cell.2 = false) :
    ∀ cell ∈ cells', fits size cell.2 = false := by
  intro cell member
  by_contra fit
  obtain ⟨free, room⟩ := fits_iff.mp (by simpa using fit)
  have seen : cell.2.isShown = true := Block.isShown_of_pos (Nat.lt_of_lt_of_le positive room)
  obtain ⟨other, there, block⟩ := List.mem_map.mp (mem_of_view same.symm member seen)
  rw [← block, unfit other there] at fit
  exact fit rfl

/-! ## Claims and releases -/

theorem view_claimed (keepEmpty : Bool) (new : Nat) :
    view names (before ++ claimed keepEmpty new size (i, b) ++ after) =
      view names before ++ (names i, ⟨b.offset, size, false⟩) ::
        shown [(fun _ => False, ⟨b.offset + size, b.size - size, true⟩)] ++
          view names after := by
  have taken : Block.isShown ⟨b.offset, size, false⟩ = true := Block.isShown_of_used rfl
  simp only [claimed, List.cons_append, List.append_assoc, view_append]
  rw [view_cons taken, face_of_used rfl, view_append]
  congr 3
  split
  · rfl
  · next rest =>
      have none : b.size - size = 0 := by
        simp only [Bool.or_eq_true, decide_eq_true_eq, not_or] at rest
        omega
      simp [view, shown, Block.isShown, none]

theorem view_released {start stop : Nat}
    (coalesced : Coalesced ((before ++ (i, b) :: after).map Prod.snd))
    (covers : Covers start ((before ++ (i, b) :: after).map Prod.snd) stop)
    (positive : 0 < b.size) :
    view names (released .bidirectional before i b after) =
      fuse (view names before ++ (fun _ => False, { b with free := true }) ::
        view names after) := by
  have covers' : Covers start
      ((before ++ (i, { b with free := true }) :: after).map Prod.snd) stop := by
    simpa [Covers.append_iff, Covers] using covers
  have tags : ∀ x ∈ (before ++ (i, { b with free := true }) :: after).map (face names),
      x.2.free = true → x.1 = fun _ => False := by
    intro x member free
    obtain ⟨cell, _, rfl⟩ := List.mem_map.mp member
    exact if_pos free
  have seen : Block.isShown { b with free := true } = true := Block.isShown_of_pos positive
  rw [released_eq_fuse coalesced, view, map_fuse (respects_face names) fun _ => rfl,
    shown_fuse (by simpa [face, Function.comp_def] using covers') tags, ← view, view_append,
    view_cons seen, face_of_free rfl]

end Layout
end BlockPool
