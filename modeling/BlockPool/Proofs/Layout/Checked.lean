import BlockPool.Proofs.Layout.Audit
import BlockPool.Proofs.Layout.Placement
import BlockPool.Proofs.Memory.Checked

/-!
# Checked layouts

The operations on layouts with every sum, difference and slot index checked.
They are the plain operations wherever the chain covers a range that ends at
an address: what is cut off a record is no longer than the record, and what
two neighbours hold together still lies in the range.
-/

namespace BlockPool

theorem Covers.neighbours {start stop : Nat} {xs ys : List Block} {b c : Block}
    (h : Covers start (xs ++ b :: c :: ys) stop) : b.size + c.size ≤ stop := by
  obtain ⟨low, _, _, meet, tail⟩ := append_iff.mp h
  have high := tail.le
  omega

namespace Layout

variable {l : Layout} {cells before after : List Cell} {i j : Nat} {b c : Block}
  {record : Record} {size stop : Nat}

/-! ## Operations -/

def spanning? (size : Nat) : Option Layout := do
  let (index, arena) ← Arena.empty.insert? ⟨0, size, true, none, none⟩
  return { arena, first := some index }

def insertAfter? (l : Layout) (index offset size : Nat) (free : Bool) :
    Option (Nat × Layout) := do
  let next := (l.get? index).bind Record.next
  let (created, arena) ← l.arena.insert? ⟨offset, size, free, next, some index⟩
  let l := ({ l with arena } : Layout).modify index fun before =>
    { before with next := some created }
  return (created, l.modifyLink next fun after => { after with prev := some created })

def remove? (l : Layout) (index : Nat) : Option (Option Record × Layout) :=
  match l.get? index with
  | none => some (none, l)
  | some record => do
      let arena ← l.arena.erase? index
      let l := { l with arena }
      let l := l.bypass (record.prev.filter fun prev => (l.get? prev).isSome) record.next
      return (some record, l.modifyLink record.next fun after =>
        { after with prev := record.prev })

def claim? (l : Layout) (keepEmpty : Bool) (index size : Nat) : Option Layout :=
  match l.get? index with
  | none => some l
  | some record => do
      let rest ← Word.sub? record.size size
      if 0 < rest || keepEmpty then
        let l := l.modify index fun record => { record with free := false, size := size }
        let offset ← Word.add? record.offset size
        let (_, l) ← l.insertAfter? index offset rest true
        return l
      else
        return l.modify index fun record => { record with free := false }

def absorb? (l : Layout) (survivor absorbed : Nat) : Option Layout := do
  match ← l.remove? absorbed with
  | (none, l) => return l
  | (some gone, l) =>
      match l.get? survivor with
      | none => return l
      | some record =>
          let size ← Word.add? record.size gone.size
          return l.modify survivor fun _ => { record with size }

def absorbNext? (l : Layout) (index : Nat) (next : Option Nat) : Option Layout :=
  match next with
  | none => some l
  | some next => if l.isFree next then l.absorb? index next else some l

def absorbPrev? (l : Layout) (policy : Coalescing) (index : Nat) (prev : Option Nat) :
    Option (Nat × Layout) :=
  match policy, prev with
  | .bidirectional, some prev =>
      if l.isFree prev then (l.absorb? prev index).map (prev, ·) else some (index, l)
  | _, _ => some (index, l)

def release? (l : Layout) (policy : Coalescing) (index : Nat) : Option (Nat × Layout) :=
  match l.get? index with
  | none => some (index, l)
  | some record => do
      let l := l.modify index fun record => { record with free := true }
      let l ← (l.retire index).absorbNext? index record.next
      l.absorbPrev? policy index record.prev

/-- Counts the records that it meets.  An address that is too large is a fault of the
layout, as in the plain audit. -/
def auditFrom? (live : Nat) :
    List (Nat × Record) → Nat → Nat → Option Nat →
      Option (Except Fault (Nat × Nat))
  | [], reached, offset, _ => some (.ok (reached, offset))
  | (index, record) :: rest, reached, offset, prev => do
      let visited ← Word.add? reached 1
      if live < visited then
        return .error .cycle
      else if record.prev ≠ prev then
        return .error (.wrongPrev index record.prev prev)
      else if record.offset ≠ offset then
        return .error (.wrongOffset index record.offset offset)
      else
        match Word.add? record.offset record.size with
        | none => return .error (.addressOverflow index)
        | some next => auditFrom? live rest visited next (some index)

def audit? (l : Layout) (size : Nat) : Option (Except Fault Unit) := do
  match ← auditFrom? l.live (l.walk (l.live + 1) l.first) 0 0 none with
  | .error fault => return .error fault
  | .ok (reached, total) =>
      if reached ≠ l.live then
        return .error (.unreachable reached l.live)
      else if total ≠ size then
        return .error (.wrongTotal total size)
      else
        return .ok ()

/-! ## Records are made, taken out and grown without a fault -/

theorem Chains.insertAfter?_eq (h : l.Chains (before ++ (i, b) :: after))
    {offset : Nat} {free : Bool}
    (slots : (l.insertAfter i offset size free).2.slotCount < UInt32.size) :
    l.insertAfter? i offset size free = some (l.insertAfter i offset size free) := by
  have found := h.get?_of_split
  rw [insertAfter_eq found] at slots ⊢
  rw [slotCount_modifyLink, slotCount_modify] at slots
  rw [insertAfter?, found, Option.bind_some, h.sound.insert?_eq slots]
  simp only [Option.bind_eq_bind, Option.bind_some, Option.pure_def, Arena.insert_fst, nextIndex]

theorem Chains.remove?_eq (h : l.Chains (before ++ (i, b) :: after)) :
    l.remove? i = some (l.remove i) := by
  have found := h.get?_of_split
  rw [remove_eq found, remove?, found]
  simp only [h.sound.erase?_eq]
  rfl

theorem Chains.claim?_eq (h : l.Chains (before ++ (i, b) :: after)) {keepEmpty : Bool}
    (fit : size ≤ b.size) (small : b.offset + b.size < UInt64.size)
    (slots : (l.claim keepEmpty i size).slotCount < UInt32.size) :
    l.claim? keepEmpty i size = some (l.claim keepEmpty i size) := by
  have found := h.get?_of_split
  rw [claim_eq found] at slots ⊢
  simp only [claim?, found, Block.size_record, Block.offset_record, Word.sub?_eq fit,
    Option.bind_eq_bind, Option.bind_some]
  by_cases rest : (0 < b.size - size || keepEmpty) = true
  · have used := h.modify (fun record => { record with free := false, size := size })
      ⟨b.offset, size, false⟩ fun _ _ => rfl
    rw [if_pos rest] at slots
    rw [if_pos rest, if_pos rest, Word.add?_eq (by omega), Option.bind_some,
      used.insertAfter?_eq slots]
    rfl
  · rw [if_neg rest, if_neg rest]
    rfl

theorem Chains.absorb?_eq (h : l.Chains (before ++ (i, b) :: (j, c) :: after))
    (small : b.size + c.size < UInt64.size) : l.absorb? i j = some (l.absorb i j) := by
  have shift : before ++ (i, b) :: (j, c) :: after =
      (before ++ [(i, b)]) ++ (j, c) :: after := by simp
  rw [shift] at h
  have found := h.get?_of_split
  have gone := h.remove
  rw [← List.append_cons] at gone
  have survivor := gone.get?_of_split
  rw [absorb?, h.remove?_eq, Layout.absorb]
  rw [remove_eq found] at survivor ⊢
  simp only [Option.bind_eq_bind, Option.bind_some, survivor, Block.size_record,
    Word.add?_eq small, Option.pure_def]
  refine congrArg (fun arena => some ({ first := _, arena } : Layout)) ?_
  exact Arena.modify_const survivor fun record => { record with size := record.size + c.size }

theorem Chains.absorbNext?_eq (h : l.Chains (before ++ (i, b) :: after))
    (covers : Covers 0 ((before ++ (i, b) :: after).map Prod.snd) stop)
    (small : stop < UInt64.size) :
    l.absorbNext? i (headLink after none) = some (l.absorbNext i (headLink after none)) := by
  cases after with
  | nil => rfl
  | cons next rest =>
      rw [List.map_append] at covers
      have together : b.size + next.2.size ≤ stop := covers.neighbours
      simp only [headLink_cons, absorbNext?, Layout.absorbNext]
      split
      · exact h.absorb?_eq (by omega)
      · rfl

theorem Chains.absorbPrev?_eq {policy : Coalescing}
    (h : l.Chains (before ++ (i, b) :: after))
    (covers : Covers 0 ((before ++ (i, b) :: after).map Prod.snd) stop)
    (small : stop < UInt64.size) :
    l.absorbPrev? policy i (lastLink none before) =
      some (l.absorbPrev policy i (lastLink none before)) := by
  cases policy with
  | forward => rfl
  | bidirectional =>
      rcases List.eq_nil_or_concat before with rfl | ⟨front, prev, rfl⟩
      · rfl
      · rw [List.concat_eq_append] at h covers ⊢
        rw [List.append_assoc, List.singleton_append] at h covers
        rw [List.map_append] at covers
        have together : prev.2.size + b.size ≤ stop := covers.neighbours
        simp only [lastLink_append, lastLink_cons, lastLink_nil, absorbPrev?,
          Layout.absorbPrev]
        split
        · rw [h.absorb?_eq (by omega)]
          rfl
        · rfl

theorem Chains.release?_eq (h : l.Chains (before ++ (i, b) :: after))
    (covers : Covers 0 ((before ++ (i, b) :: after).map Prod.snd) stop)
    (small : stop < UInt64.size) (policy : Coalescing) :
    l.release? policy i = some (l.release policy i) := by
  have found := h.get?_of_split
  have freed := (h.modify (fun record => { record with free := true })
    { b with free := true } fun _ _ => rfl).retire i
  have covers' : Covers 0 ((before ++ (i, { b with free := true }) :: after).map
      Prod.snd) stop := by simpa [Covers.append_iff, Covers] using covers
  have merged := h.freeForward
  have covered := covers_freeForward covers
  obtain ⟨c, rest, cells, _⟩ := exists_mergeNext_eq i { b with free := true } after
  rw [cells] at merged covered
  rw [release_eq found, release?, found]
  simp only [Block.next_record, freed.absorbNext?_eq covers' small, Option.bind_eq_bind,
    Option.bind_some, Block.prev_record]
  exact merged.absorbPrev?_eq covered small

/-! ## The audit -/

theorem auditFrom?_eq {live reached offset : Nat} {prev : Option Nat}
    (entries : List (Nat × Record)) (small : reached + entries.length < UInt64.size) :
    auditFrom? live entries reached offset prev =
      some (auditFrom live entries reached offset prev) := by
  induction entries generalizing reached offset prev with
  | nil => rfl
  | cons entry rest ih =>
      obtain ⟨index, record⟩ := entry
      rw [List.length_cons] at small
      simp only [auditFrom?, auditFrom, Word.add?_eq (show reached + 1 < UInt64.size by omega),
        Option.bind_eq_bind, Option.bind_some, Option.pure_def, Nat.lt_succ_iff]
      split
      · rfl
      · split
        · rfl
        · split
          · rfl
          · by_cases overflow : addressBound ≤ record.offset + record.size
            · have none : Word.add? record.offset record.size = none :=
                if_neg (Nat.not_lt.mpr overflow)
              rw [if_pos overflow, none]
            · rw [if_neg overflow, Word.add?_eq (Nat.lt_of_not_le overflow)]
              exact ih (by omega)

theorem audit?_eq (small : l.live + 1 < UInt64.size) (size : Nat) :
    l.audit? size = some (l.audit size) := by
  have short := l.length_walk_le (l.live + 1) l.first
  rw [audit?, audit, auditFrom?_eq _ (by omega)]
  simp only [Option.bind_eq_bind, Option.bind_some, Option.pure_def]
  cases auditFrom l.live (l.walk (l.live + 1) l.first) 0 0 none with
  | error fault => rfl
  | ok counts =>
      simp only
      split
      · rfl
      · split <;> rfl

end Layout

end BlockPool
