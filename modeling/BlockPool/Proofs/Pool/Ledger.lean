import BlockPool.Proofs.Pool.Refinement

/-!
# Which handles a pool accepts

A ledger is kept from requests and results alone: the handles that were given
out so far, and those of them that were not given back.  A pool accepts the
handles that the ledger says are held, and gives no handle out twice, as long
as no slot is retired as often as a generation can count.
-/

namespace BlockPool

structure Ledger where
  issued : List Handle
  held : List Handle
  deriving DecidableEq, Repr

namespace Ledger

def blank : Ledger := ⟨[], []⟩

/-- Notes a request and its result.

A resize that gives back another handle than it was given has moved the block. -/
def note (l : Ledger) :
    Pool.Request × Except PoolError Pool.Reply → Ledger
  | (.allocate _, .ok (.handle new)) => ⟨new :: l.issued, new :: l.held⟩
  | (.deallocate handle, .ok _) => ⟨l.issued, l.held.filter (· ≠ handle)⟩
  | (.resize handle _, .ok (.handle new)) =>
      if new = handle then l
      else ⟨new :: l.issued, new :: l.held.filter (· ≠ handle)⟩
  | _ => l

def ofRun (p : Pool) (requests : List Pool.Request) : Ledger :=
  (requests.zip (p.run requests).1).foldl note blank

end Ledger

/-! ## Retired slots -/

def Heap.retiring (heap : Heap) : Pool.Request → List Nat
  | .deallocate handle =>
      match heap.range? handle with
      | none => []
      | some _ =>
          heap.layout.retiredBy heap.config.coalesce handle.index.toNat
  | .resize handle size =>
      match heap.range? handle, heap.layout.firstFit? size with
      | some b, some target =>
          if b.size < size then
            (heap.claimAt target size).layout.retiredBy heap.config.coalesce
              handle.index.toNat
          else
            []
      | _, _ => []
  | _ => []

def Pool.retiring (p : Pool) (request : Pool.Request) : List Nat :=
  match p.phase with
  | .ready heap => heap.retiring request
  | _ => []

def Pool.retired (p : Pool) : List Pool.Request → List Nat
  | [] => []
  | request :: rest => p.retiring request ++ (p.perform request).2.retired rest

theorem Pool.retired_cons {config : Config} {heap : Heap} {request : Pool.Request}
    (isOpen : request ≠ .close) (rest : List Pool.Request) :
    (⟨config, .ready heap⟩ : Pool).retired (request :: rest) =
      heap.retiring request ++
        (⟨config, .ready (heap.serve request)⟩ : Pool).retired rest := by
  rw [Pool.retired, Pool.perform_ready isOpen]
  rfl

namespace Heap

open Layout

variable {heap : Heap} {cells : List Cell} {handle : Handle} {i target size : Nat}
  {b c : Block}

theorem Sound.raises_release (h : heap.Sound cells) (used : (i, b) ∈ usedCells cells) :
    Raises heap.layout (heap.release i).2.layout
      (heap.layout.retiredBy heap.config.coalesce i) := by
  obtain ⟨before, after, rfl⟩ := List.append_of_mem (mem_usedCells.mp used).1
  rw [layout_release]
  exact h.chains.raises_release heap.config.coalesce

theorem Sound.raises_claimAt (h : heap.Sound cells) (member : (i, b) ∈ cells)
    (size : Nat) : Raises heap.layout (heap.claimAt i size).layout [] := by
  obtain ⟨before, after, rfl⟩ := List.append_of_mem member
  apply raises_nil
  intro k
  rw [layout_claimAt, generation_claim h.chains]

theorem Sound.raises_moved (h : heap.Sound cells) (named : heap.range? handle = some b)
    (member : (target, c) ∈ cells) (fit : fits size c = true) :
    Raises heap.layout (heap.moved handle.index.toNat b (target, c) size).layout
      ((heap.claimAt target size).layout.retiredBy heap.config.coalesce
        handle.index.toNat) := by
  obtain ⟨_, cells', copied, used⟩ := h.exists_copied named member fit
  have claimed : Raises heap.layout (heap.copied b (target, c) size).layout [] :=
    h.raises_claimAt member size
  have released := copied.raises_release used
  rw [config_copied] at released
  rw [moved, layout_count]
  exact claimed.trans released

theorem retiring_of_moved (named : heap.range? handle = some b) (larger : b.size < size)
    (found : heap.layout.firstFit? size = some target) :
    heap.retiring (.resize handle size) =
      (heap.claimAt target size).layout.retiredBy heap.config.coalesce
        handle.index.toNat := by
  simp only [retiring, named, found, if_pos larger]

theorem Sound.raises_serve (h : heap.Sound cells) (request : Pool.Request) :
    Raises heap.layout (heap.serve request).layout (heap.retiring request) := by
  cases request with
  | allocate size =>
      rw [Heap.serve]
      cases h.allocation size with
      | noRoom _ result =>
          rw [result]
          exact raises_nil fun k => by rw [countFailure, layout_count]
      | placed i b member fit _ result =>
          rw [result, placed, layout_count]
          exact h.raises_claimAt member size
  | deallocate handle =>
      rw [Heap.serve, retiring, deallocate_eq]
      cases named : heap.range? handle with
      | none => exact raises_nil fun k => rfl
      | some b =>
          simp only [freed, layout_count]
          exact h.raises_release (h.range?_eq_some_iff.mp named).1
  | resize handle size =>
      rw [Heap.serve]
      cases h.resizing handle size with
      | unnamed unnamed result =>
          rw [result, retiring, unnamed]
          exact raises_nil fun k => rfl
      | kept b named room result =>
          have idle : heap.retiring (.resize handle size) = [] := by
            cases found : heap.layout.firstFit? size <;>
              simp only [retiring, named, found, if_neg (Nat.not_lt.mpr room)]
          rw [result, idle]
          exact raises_nil fun k => rfl
      | noRoom b named _ none result =>
          rw [result, retiring, named, none]
          exact raises_nil fun k => by rw [countFailure, layout_count]
      | moved b target c named larger member fit found result =>
          rw [result, retiring_of_moved named larger found]
          exact h.raises_moved named member fit
  | write handle offset data =>
      change Raises heap.layout (heap.write handle offset data).2.layout []
      rw [write_eq]
      cases heap.range? handle with
      | none => exact raises_nil fun k => rfl
      | some b =>
          simp only
          split <;> exact raises_nil fun k => rfl
  | _ => exact raises_nil fun k => rfl

end Heap

/-! ## What a step notes -/

namespace Contents.Step

variable {config : Config} {m m' : Contents} {request : Pool.Request}
  {result : Except PoolError Pool.Reply} {l : Ledger}

theorem note_asked (query : request.isQuery = true) : l.note (request, result) = l := by
  cases request <;> first | rfl | cases query

theorem note_error (l : Ledger) (request : Pool.Request) (error : PoolError) :
    l.note (request, .error error) = l := by
  cases request <;> rfl

theorem note_moved {handle new : Handle} {size : Nat} (distinct : new ≠ handle) :
    l.note (.resize handle size, .ok (.handle new)) =
      ⟨new :: l.issued, new :: l.held.filter (· ≠ handle)⟩ :=
  if_neg distinct

theorem ne_of_live {handle new : Handle} {bytes : List UInt8}
    (live : m handle = some bytes) (unused : m new = none) : new ≠ handle := by
  rintro rfl
  rw [live] at unused
  cases unused

theorem mem_held (step : m.Step config request result m')
    (held : ∀ handle, handle ∈ l.held ↔ (m handle).isSome) (handle : Handle) :
    handle ∈ (l.note (request, result)).held ↔ (m' handle).isSome := by
  cases step with
  | allocated unused fresh =>
      simp only [Ledger.note, List.mem_cons, held, set]
      split <;> simp_all
  | freed live =>
      simp only [Ledger.note, List.mem_filter, held, set]
      split <;> simp_all
  | written live inside =>
      simp only [Ledger.note, held, set]
      split <;> simp_all
  | kept live room => simp only [Ledger.note, if_true, held]
  | @moved old new size bytes rest live larger unused fresh =>
      rw [note_moved (ne_of_live live unused)]
      simp only [List.mem_cons, List.mem_filter, held, set]
      by_cases isNew : handle = new
      · simp [isNew]
      · by_cases isOld : handle = old <;> simp [isNew, isOld]
  | asked query => rw [note_asked query, held]
  | _ => rw [note_error, held]

theorem issued_note (step : m.Step config request result m') (l : Ledger) :
    (l.note (request, result)).issued = l.issued ∨
      ∃ new, (l.note (request, result)).issued = new :: l.issued ∧ m new = none ∧
        (m' new).isSome := by
  cases step with
  | allocated unused fresh => exact .inr ⟨_, rfl, unused, by simp⟩
  | freed live => exact .inl rfl
  | written live inside => exact .inl rfl
  | kept live room => exact .inl (by simp [Ledger.note])
  | @moved old new size bytes rest live larger unused fresh =>
      refine .inr ⟨new, ?_, unused, by simp⟩
      rw [note_moved (ne_of_live live unused)]
  | asked query => exact .inl (by rw [note_asked query])
  | _ => exact .inl (by rw [note_error])

theorem issued_given {new : Handle} (step : m.Step config request (.ok (.handle new)) m')
    (acts : request.isQuery = false) (l : Ledger) :
    request.handle? = some new ∨
      (l.note (request, .ok (.handle new))).issued = new :: l.issued := by
  cases step with
  | allocated unused fresh => exact .inr rfl
  | kept live room => exact .inl rfl
  | moved live larger unused fresh =>
      rw [note_moved (ne_of_live live unused)]
      exact .inr rfl
  | asked query =>
      rw [acts] at query
      cases query

theorem of_gone (step : m.Step config request result m') {handle : Handle}
    (live : (m handle).isSome) (gone : m' handle = none) :
    request = .deallocate handle ∨ ∃ size, request = .resize handle size := by
  have kept {other : Handle} {bytes : Option (List UInt8)}
      (gone : m.set other bytes handle = none) : handle = other := by
    by_cases same : handle = other
    · exact same
    · rw [set_of_ne m bytes same] at gone
      simp [gone] at live
  cases step with
  | allocated unused fresh =>
      obtain rfl := kept gone
      simp at gone
  | freed _ => exact .inl (by rw [kept gone])
  | written _ inside =>
      obtain rfl := kept gone
      simp at gone
  | @moved old new size bytes rest _ larger unused fresh =>
      have distinct : handle ≠ new := by
        rintro rfl
        simp at gone
      rw [set_of_ne _ _ distinct] at gone
      exact .inr ⟨size, by rw [kept gone]⟩
  | _ => simp [gone] at live

end Contents.Step

namespace Heap

open Layout

variable {heap : Heap} {cells : List Cell} {handle : Handle} {request : Pool.Request}

theorem mem_retiredBy_self {l : Layout} {i : Nat} {record : Record}
    (found : l.get? i = some record) (policy : Coalescing) :
    i ∈ l.retiredBy policy i := by
  simp [retiredBy, found]

theorem Sound.mem_retiring (h : heap.Sound cells) (isOpen : request ≠ .close)
    (slots : (heap.serve request).layout.slotCount < UInt32.size)
    (live : (heap.contents handle).isSome)
    (gone : (heap.serve request).contents handle = none) :
    handle.index.toNat ∈ heap.retiring request := by
  obtain ⟨b, named⟩ := Heap.exists_range?_of_isSome live
  have step := h.step heap.config isOpen slots
  rcases step.of_gone live gone with rfl | ⟨size, rfl⟩
  · have used := (mem_usedCells.mp (h.range?_eq_some_iff.mp named).1).1
    obtain ⟨prev, next, found⟩ := h.chains.get?_of_mem used
    rw [retiring, named]
    exact mem_retiredBy_self found _
  · rw [Heap.serve] at gone
    cases h.resizing handle size with
    | unnamed unnamed result => simp [unnamed] at named
    | kept _ _ _ result =>
        rw [result] at gone
        simp [gone] at live
    | noRoom _ _ _ _ result =>
        rw [result, contents_countFailure] at gone
        simp [gone] at live
    | moved c target d named larger member fit found result =>
        obtain ⟨_, cells', copied, used⟩ := h.exists_copied named member fit
        obtain ⟨prev, next, there⟩ := copied.chains.get?_of_mem (mem_usedCells.mp used).1
        rw [retiring_of_moved named larger found]
        exact mem_retiredBy_self there _

end Heap

/-! ## Runs -/

structure Ledger.Tracks (l : Ledger) (log : List Nat) (heap : Heap) : Prop where
  generation : ∀ slot, heap.layout.generation slot = UInt32.ofNat (log.count slot)
  held : ∀ handle, handle ∈ l.held ↔ (heap.contents handle).isSome
  spent : ∀ handle ∈ l.issued, handle ∉ l.held →
    handle.generation.toNat < log.count handle.index.toNat
  once : l.issued.Nodup

namespace Ledger

variable {l : Ledger} {log : List Nat} {heap : Heap} {cells : List Cell}
  {request : Pool.Request} {config : Config} {handle : Handle}

/-- A handle in use has been retired as often as its generation says. -/
theorem generation_of_live (h : heap.Sound cells)
    (generation : ∀ slot, heap.layout.generation slot = UInt32.ofNat (log.count slot))
    (few : ∀ slot, log.count slot < UInt32.size)
    (live : (heap.contents handle).isSome) :
    handle.generation.toNat = log.count handle.index.toNat := by
  obtain ⟨b, named⟩ := Heap.exists_range?_of_isSome live
  rw [← (h.range?_eq_some_iff.mp named).2, generation]
  exact UInt32.toNat_ofNat_of_lt' (few _)

theorem tracks_blank (size : Nat) (config : Config) :
    blank.Tracks [] (.ofSize size config) where
  generation slot := by
    cases slot <;> rfl
  held handle := by
    rw [Heap.contents_ofSize]
    simp [blank, Contents.empty]
  spent handle member := by simp [blank] at member
  once := List.nodup_nil

theorem Tracks.note (tracks : l.Tracks log heap) (h : heap.Sound cells)
    (isOpen : request ≠ .close)
    (slots : (heap.serve request).layout.slotCount < UInt32.size)
    (few : ∀ slot, (log ++ heap.retiring request).count slot < UInt32.size) :
    (l.note (request, ((⟨config, .ready heap⟩ : Pool).perform request).1)).Tracks
      (log ++ heap.retiring request) (heap.serve request) := by
  have step := h.step config isOpen slots
  obtain ⟨cells', next⟩ := h.serve request
  have generation (slot : Nat) : (heap.serve request).layout.generation slot =
      UInt32.ofNat ((log ++ heap.retiring request).count slot) := by
    rw [h.raises_serve request slot, tracks.generation, List.count_append,
      UInt32.ofNat_add]
  have held := step.mem_held tracks.held
  have fewer (slot : Nat) : log.count slot < UInt32.size := by
    have total := few slot
    rw [List.count_append] at total
    omega
  refine ⟨generation, held, ?_, ?_⟩
  · intro handle issued back
    rw [List.count_append]
    have old : handle ∈ l.issued := by
      rcases step.issued_note l with same | ⟨new, grown, _, live⟩
      · rwa [same] at issued
      · rw [grown] at issued
        rcases List.mem_cons.mp issued with rfl | old
        · exact absurd ((held handle).mpr live) back
        · exact old
    -- A handle that is given up now had its slot retired once more just now.
    by_cases was : handle ∈ l.held
    · have live := (tracks.held handle).mp was
      have gone : (heap.serve request).contents handle = none := by
        simpa using mt (held handle).mpr back
      have retired := List.count_pos_iff.mpr (h.mem_retiring isOpen slots live gone)
      have current := generation_of_live h tracks.generation fewer live
      omega
    · have spent := tracks.spent handle old was
      omega
  · rcases step.issued_note l with same | ⟨new, grown, unused, live⟩
    · rw [same]
      exact tracks.once
    · rw [grown, List.nodup_cons]
      refine ⟨fun old => ?_, tracks.once⟩
      -- Had it been issued before, its slot would have been retired more often than it was.
      have was : new ∉ l.held := by simp [tracks.held, unused]
      have spent := tracks.spent new old was
      have current := generation_of_live next generation few live
      rw [List.count_append] at current
      omega

theorem Tracks.run (tracks : l.Tracks log heap) (h : heap.Sound cells)
    {requests : List Pool.Request} (isOpen : .close ∉ requests)
    (slots : (requests.foldl Heap.serve heap).layout.slotCount < UInt32.size)
    (few : ∀ slot, (log ++ (⟨config, .ready heap⟩ : Pool).retired requests).count slot <
      UInt32.size) :
    ((requests.zip ((⟨config, .ready heap⟩ : Pool).run requests).1).foldl Ledger.note l).Tracks
      (log ++ (⟨config, .ready heap⟩ : Pool).retired requests)
      (requests.foldl Heap.serve heap) := by
  induction requests generalizing l log heap cells with
  | nil =>
      rw [Pool.retired, List.append_nil]
      exact tracks
  | cons request rest ih =>
      rw [List.mem_cons, not_or] at isOpen
      have going : request ≠ .close := Ne.symm isOpen.1
      obtain ⟨cells', next⟩ := h.serve request
      have later : (heap.serve request).layout.slotCount < UInt32.size := by
        obtain ⟨_, _, _, _, grown⟩ := next.foldl_serve rest
        exact Nat.lt_of_le_of_lt grown slots
      rw [Pool.retired_cons going, ← List.append_assoc] at few ⊢
      have fewer (slot : Nat) :
          (log ++ heap.retiring request).count slot < UInt32.size := by
        have total := few slot
        rw [List.count_append] at total
        omega
      rw [Pool.run_cons, Pool.perform_ready going]
      exact ih (tracks.note h going later fewer) next isOpen.2 slots few

end Ledger

namespace Pool

variable {config : Config} {heap : Heap} {cells : List Cell} {request : Request}
  {handle : Handle} {b : Block}

/-- What is answered to a request about a handle that is accepted, `b` being its block. -/
inductive Accepts (handle : Handle) (b : Block) : Request → Except PoolError Reply → Prop where
  | block : Accepts handle b (.block handle) (.ok (.block b))
  | read {bytes : List UInt8} (whole : bytes.length = b.size) :
      Accepts handle b (.read handle) (.ok (.bytes bytes))
  | part {offset length : Nat} {bytes : List UInt8} (inside : offset + length ≤ b.size)
      (exact : bytes.length = length) :
      Accepts handle b (.readAt handle offset length) (.ok (.bytes bytes))
  | partOutside {offset length : Nat} (outside : b.size < offset + length) :
      Accepts handle b (.readAt handle offset length)
        (.error (.outOfBounds offset length b.size))
  | written {offset : Nat} {data : List UInt8} (inside : offset + data.length ≤ b.size) :
      Accepts handle b (.write handle offset data) (.ok .done)
  | writtenOutside {offset : Nat} {data : List UInt8}
      (outside : b.size < offset + data.length) :
      Accepts handle b (.write handle offset data)
        (.error (.outOfBounds offset data.length b.size))
  | freed : Accepts handle b (.deallocate handle) (.ok .done)
  | kept {size : Nat} (room : size ≤ b.size) :
      Accepts handle b (.resize handle size) (.ok (.handle handle))
  | moved {size : Nat} {new : Handle} (larger : b.size < size) (other : new ≠ handle) :
      Accepts handle b (.resize handle size) (.ok (.handle new))
  | noRoom {size largest : Nat} (larger : b.size < size) :
      Accepts handle b (.resize handle size) (.error (.allocationFailed size largest))

theorem perform_of_dead (about : request.handle? = some handle)
    (dead : heap.contents handle = none) :
    ((⟨config, .ready heap⟩ : Pool).perform request).1 = .error (.notFound handle) := by
  have unnamed := Heap.contents_eq_none_iff.mp dead
  have block : heap.block handle = .error (.notFound handle) := by
    rw [Heap.block_eq, unnamed]
  cases request with
  | deallocate handle =>
      cases about
      change (heap.deallocate handle).1.map _ = _
      rw [Heap.deallocate_eq, unnamed]
      rfl
  | resize handle size =>
      cases about
      change (heap.resize handle size).1.map _ = _
      rw [Heap.resize_of_none unnamed]
      rfl
  | read handle =>
      cases about
      change (heap.read handle).map _ = _
      rw [Heap.read, block]
      rfl
  | readAt handle offset length =>
      cases about
      change (heap.readAt handle offset length).map _ = _
      rw [Heap.readAt, block]
      rfl
  | write handle offset data =>
      cases about
      change (heap.write handle offset data).1.map _ = _
      rw [Heap.write_eq, unnamed]
      rfl
  | block handle =>
      cases about
      change (heap.block handle).map _ = _
      rw [block]
      rfl
  | _ => cases about

theorem accepts_resize (h : heap.Sound cells) (slots : heap.layout.slotCount < UInt32.size)
    (named : heap.range? handle = some b) (size : Nat) :
    Accepts handle b (.resize handle size) ((heap.resize handle size).1.map .handle) := by
  have same {c : Block} (also : heap.range? handle = some c) : c = b :=
    Option.some.inj (also.symm.trans named)
  cases h.resizing handle size with
  | unnamed unnamed _ =>
      rw [named] at unnamed
      cases unnamed
  | kept c also room result =>
      obtain rfl := same also
      rw [result]
      exact .kept room
  | noRoom c also larger _ result =>
      obtain rfl := same also
      rw [result]
      exact .noRoom larger
  | moved c target d also larger member fit _ result =>
      obtain rfl := same also
      have small : target < UInt32.size := Nat.lt_trans (h.chains.lt_slotCount member) slots
      rw [result]
      refine .moved larger fun again => ?_
      have unused := h.contents_handleOf member fit small
      rw [again, Heap.contents_eq_none_iff, named] at unused
      cases unused

theorem accepts_readAt (h : heap.Sound cells) (named : heap.range? handle = some b)
    (offset length : Nat) :
    Accepts handle b (.readAt handle offset length)
      ((heap.readAt handle offset length).map .bytes) := by
  rw [Heap.readAt, Heap.block_eq, named]
  simp only
  split
  · next inside =>
      have within := h.range?_inside named
      exact .part inside (Buffer.length_slice (by omega))
  · next outside => exact .partOutside (Nat.lt_of_not_le outside)

theorem accepts_write (named : heap.range? handle = some b) (offset : Nat)
    (data : List UInt8) :
    Accepts handle b (.write handle offset data)
      ((heap.write handle offset data).1.map fun _ => .done) := by
  rw [Heap.write_eq, named]
  simp only
  split
  · next inside => exact .written inside
  · next outside => exact .writtenOutside (Nat.lt_of_not_le outside)

theorem perform_of_live (h : heap.Sound cells) (slots : heap.layout.slotCount < UInt32.size)
    (about : request.handle? = some handle) (named : heap.range? handle = some b) :
    Accepts handle b request ((⟨config, .ready heap⟩ : Pool).perform request).1 := by
  cases request with
  | deallocate handle =>
      cases about
      change Accepts handle b _ ((heap.deallocate handle).1.map fun _ => .done)
      rw [Heap.deallocate_eq, named]
      exact .freed
  | resize handle size =>
      cases about
      exact accepts_resize h slots named size
  | read handle =>
      cases about
      change Accepts handle b _ ((heap.read handle).map .bytes)
      rw [Heap.read_of_range? named]
      exact .read (h.length_contents named)
  | readAt handle offset length =>
      cases about
      exact accepts_readAt h named offset length
  | write handle offset data =>
      cases about
      exact accepts_write named offset data
  | block handle =>
      cases about
      change Accepts handle b _ ((heap.block handle).map .block)
      rw [Heap.block_eq, named]
      exact .block
  | _ => cases about

/-- The handles that a pool accepts are those that its ledger says are held. -/
theorem run_accepts_held {p : Pool} {size : Nat} {requests : List Request}
    (opened : (⟨config, .uninitialized⟩ : Pool).setUp size = (.ok (), p))
    (isOpen : .close ∉ requests) (slots : (p.run requests).2.slotCount < UInt32.size)
    (few : ∀ slot, (p.retired requests).count slot < UInt32.size) :
    (Ledger.ofRun p requests).issued.Nodup ∧
      ∀ request handle, request.handle? = some handle →
        (handle ∉ (Ledger.ofRun p requests).held →
          ((p.run requests).2.perform request).1 = .error (.notFound handle)) ∧
        (handle ∈ (Ledger.ofRun p requests).held →
          ∃ b, (p.run requests).2.block handle = .ok b ∧
            Accepts handle b request ((p.run requests).2.perform request).1) := by
  rw [setUp] at opened
  split at opened
  · cases opened
  · cases opened
    have start := Heap.sound_ofSize size config
    rw [run_ready isOpen] at slots ⊢
    have tracks := (Ledger.tracks_blank size config).run start isOpen slots few
    obtain ⟨cells, sound, _⟩ := start.foldl_serve requests
    refine ⟨tracks.once, fun request handle about => ⟨fun back => ?_, fun held => ?_⟩⟩
    · apply perform_of_dead about
      simpa using mt (tracks.held handle).mpr back
    · obtain ⟨b, named⟩ := Heap.exists_range?_of_isSome ((tracks.held handle).mp held)
      have found : (requests.foldl Heap.serve (.ofSize size config)).block handle = .ok b := by
        rw [Heap.block_eq, named]
      exact ⟨b, found, perform_of_live sound slots about named⟩

theorem run_accepts_held_reused :
    (Ledger.ofRun ⟨.debug, .ready (.ofSize 16 .debug)⟩
        [.allocate 2, .resize ⟨0, 0⟩ 4, .deallocate ⟨1, 0⟩, .allocate 1]).issued.Nodup ∧
      ∀ request handle, request.handle? = some handle →
        (handle ∉ (Ledger.ofRun ⟨.debug, .ready (.ofSize 16 .debug)⟩
            [.allocate 2, .resize ⟨0, 0⟩ 4, .deallocate ⟨1, 0⟩, .allocate 1]).held →
          ((Pool.run ⟨.debug, .ready (.ofSize 16 .debug)⟩
            [.allocate 2, .resize ⟨0, 0⟩ 4, .deallocate ⟨1, 0⟩, .allocate 1]).2.perform
              request).1 = .error (.notFound handle)) ∧
        (handle ∈ (Ledger.ofRun ⟨.debug, .ready (.ofSize 16 .debug)⟩
            [.allocate 2, .resize ⟨0, 0⟩ 4, .deallocate ⟨1, 0⟩, .allocate 1]).held →
          ∃ b, (Pool.run ⟨.debug, .ready (.ofSize 16 .debug)⟩
              [.allocate 2, .resize ⟨0, 0⟩ 4, .deallocate ⟨1, 0⟩, .allocate 1]).2.block
                handle = .ok b ∧
            Accepts handle b request
              ((Pool.run ⟨.debug, .ready (.ofSize 16 .debug)⟩
                [.allocate 2, .resize ⟨0, 0⟩ 4, .deallocate ⟨1, 0⟩, .allocate 1]).2.perform
                  request).1) :=
  run_accepts_held (setUp_of_pos (by decide)) (by decide) (by decide +kernel)
    fun _ => Nat.lt_of_le_of_lt List.count_le_length (by decide +kernel)

end Pool

end BlockPool
