import Mathlib.Data.List.Chain
import BlockPool.Proofs.Layout.Placement

/-!
# Free blocks are not neighbours

A claim puts a used cell where a free one was, and behind it a free rest that
has the same right neighbour as the free cell had.  A release under the
bidirectional policy merges once to each side, which is enough because the
neighbours of a free cell are in use.
-/

namespace BlockPool

def Coalesced (blocks : List Block) : Prop :=
  blocks.IsChain fun b c => b.free = true → c.free = false

namespace Coalesced

variable {blocks xs ys : List Block} {b c : Block}

theorem congr (h : Coalesced xs) (same : ys.map Block.free = xs.map Block.free) :
    Coalesced ys := by
  have flags (blocks : List Block) : Coalesced blocks ↔
      (blocks.map Block.free).IsChain fun x y => x = true → y = false := by
    rw [List.isChain_map, Coalesced]
  rw [flags] at h ⊢
  exact same ▸ h

theorem split_iff :
    Coalesced (xs ++ b :: ys) ↔ Coalesced (xs ++ [b]) ∧ Coalesced (b :: ys) :=
  List.isChain_split

theorem cons_of_used (used : b.free = false) (h : Coalesced ys) : Coalesced (b :: ys) :=
  List.isChain_cons.mpr ⟨fun _ _ free => by simp [used] at free, h⟩

theorem of_cons (h : Coalesced (b :: ys)) : Coalesced ys :=
  (List.isChain_cons.mp h).2

theorem concat_of_used (used : b.free = false) (h : Coalesced xs) :
    Coalesced (xs ++ [b]) :=
  List.isChain_append.mpr ⟨h, .singleton b, by simp [used]⟩

theorem of_concat (h : Coalesced (xs ++ [b])) : Coalesced xs :=
  (List.isChain_append.mp h).1

theorem eq_singleton {size : Nat} (h : Coalesced blocks) (covers : Covers 0 blocks size)
    (positive : 0 < size) (free : ∀ b ∈ blocks, b.free = true) :
    blocks = [⟨0, size, true⟩] := by
  cases blocks with
  | nil =>
      have empty : 0 = size := covers
      omega
  | cons b rest =>
      cases rest with
      | nil =>
          obtain ⟨offset, (stop : b.offset + b.size = size)⟩ := covers
          have here := free b (by simp)
          obtain ⟨_, _, _⟩ := b
          simp_all
      | cons c rest =>
          have used := (List.isChain_cons_cons.mp h).1 (free b (by simp))
          simp [free c (by simp)] at used

end Coalesced

namespace Layout

variable {before after cells : List Cell} {cell : Cell} {i : Nat} {b : Block}

theorem coalesced_claimed {keepEmpty : Bool} {new size : Nat}
    (h : Coalesced ((before ++ cell :: after).map Prod.snd))
    (free : cell.2.free = true) :
    Coalesced ((before ++ claimed keepEmpty new size cell ++ after).map Prod.snd) := by
  rw [List.map_append, List.map_cons, Coalesced.split_iff] at h
  have front := h.1.of_concat
  simp only [claimed, List.cons_append, List.append_assoc, List.map_append, List.map_cons]
  refine Coalesced.split_iff.mpr ⟨front.concat_of_used rfl, .cons_of_used rfl ?_⟩
  split
  · exact h.2.congr (by simp [free])
  · exact h.2.of_cons

theorem coalesced_mergeNext (h : Coalesced (after.map Prod.snd))
    (free : cell.2.free = true) : Coalesced ((mergeNext cell after).map Prod.snd) := by
  cases after with
  | nil => exact .singleton _
  | cons next rest =>
      simp only [mergeNext]
      split
      · next absorbed => exact h.congr (by simp [grow, free, absorbed])
      · next used =>
          have apart : next.2.free = false := by simpa using used
          exact List.isChain_cons_cons.mpr ⟨fun _ => apart, h⟩

theorem coalesced_mergePrev (front : Coalesced (before.map Prod.snd))
    (back : Coalesced ((cell :: cells).map Prod.snd)) (free : cell.2.free = true) :
    Coalesced ((mergePrev before (cell :: cells)).map Prod.snd) := by
  rcases List.eq_nil_or_concat before with rfl | ⟨rest, prev, rfl⟩
  · exact back
  · rw [List.concat_eq_append] at front ⊢
    rw [mergePrev_append]
    split
    · next absorbed =>
        rw [List.map_append, List.map_cons, Coalesced.split_iff]
        constructor
        · exact front.congr (by simp [grow])
        · exact back.congr (by simp [grow, free, absorbed])
    · next used =>
        have apart : prev.2.free = false := by simpa using used
        rw [List.map_append, List.map_cons, Coalesced.split_iff]
        exact ⟨by simpa using front, back.cons_of_used apart⟩

theorem coalesced_released
    (h : Coalesced ((before ++ (i, b) :: after).map Prod.snd)) :
    Coalesced ((released .bidirectional before i b after).map Prod.snd) := by
  rw [List.map_append, List.map_cons, Coalesced.split_iff] at h
  have back : Coalesced ((mergeNext (i, { b with free := true }) after).map Prod.snd) :=
    coalesced_mergeNext h.2.of_cons rfl
  obtain ⟨c, rest, cells, free⟩ := exists_mergeNext_eq i { b with free := true } after
  rw [cells] at back
  rw [released, cells]
  exact coalesced_mergePrev h.1.of_concat back free

end Layout

end BlockPool
