import BlockPool.Proofs.Pool.Ledger
import BlockPool.Proofs.Pool.Twins

/-!
# Empty rests do not show

Two pools that merge both ways and differ only in whether empty rests are kept
follow a script in step, as long as the script asks for no empty block.  A
ledger beside each pool says that no handle is given out twice while slots and
generations last, so that a step names the same block in both.
-/

namespace BlockPool

open Layout

/-! ## What was given out is in the ledger -/

structure Heap.Booked (heap : Heap) (answers : Pool.Answers) (l : Ledger) (log : List Nat) :
    Prop where
  tracks : l.Tracks log heap
  known : ∀ step handle, answers.handle? step = some handle → handle ∈ l.issued

namespace Pool

/-- A handle in the result that the request is not about was not given out before. -/
def Answers.Unspent (answers : Answers) (request : Request)
    (result : Except PoolError Reply) : Prop :=
  ∀ new, result = .ok (.handle new) → request.handle? ≠ some new →
    ∀ step, answers.handle? step ≠ some new

end Pool

namespace Heap

variable {heap heap' : Heap} {cells cells' : List Cell} {answers answers' : Pool.Answers}
  {l l' : Ledger} {log log' : List Nat} {order : Pool.Order} {orders rest : List Pool.Order}
  {request request' : Pool.Request} {config config' : Config}

theorem Booked.skip (booked : heap.Booked answers l log) :
    heap.Booked (answers ++ [none]) l log where
  tracks := booked.tracks
  known step handle given := by
    rcases Pool.Answers.handle?_concat.mp given with before | ⟨_, none⟩
    · exact booked.known step handle before
    · cases none

theorem Booked.serve (booked : heap.Booked answers l log) (h : heap.Sound cells)
    (asks : order.request? answers = some request)
    (slots : (heap.serve request).layout.slotCount < UInt32.size)
    (few : ∀ slot, (log ++ heap.retiring request).count slot < UInt32.size) :
    (heap.serve request).Booked
        (answers ++ [some ((⟨config, .ready heap⟩ : Pool).perform request).1])
        (l.note (request, ((⟨config, .ready heap⟩ : Pool).perform request).1))
        (log ++ heap.retiring request) ∧
      answers.Unspent request ((⟨config, .ready heap⟩ : Pool).perform request).1 := by
  have isOpen := Pool.Order.ne_close asks
  have step := h.step config isOpen slots
  have tracks : (l.note (request, ((⟨config, .ready heap⟩ : Pool).perform request).1)).Tracks _ _ :=
    booked.tracks.note h isOpen slots few
  have anew (new : Handle)
      (result : ((⟨config, .ready heap⟩ : Pool).perform request).1 = .ok (.handle new)) :
      request.handle? = some new ∨
        (l.note (request, ((⟨config, .ready heap⟩ : Pool).perform request).1)).issued =
          new :: l.issued := by
    rw [result] at step ⊢
    exact step.issued_given (Pool.Order.isQuery_eq_false asks) l
  have kept (handle : Handle) (issued : handle ∈ l.issued) :
      handle ∈ (l.note (request, ((⟨config, .ready heap⟩ : Pool).perform request).1)).issued := by
    rcases step.issued_note l with same | ⟨new, grown, _⟩
    · rwa [same]
    · rw [grown]
      exact List.mem_cons_of_mem new issued
  refine ⟨⟨tracks, fun k handle given => ?_⟩, fun new result other k given => ?_⟩
  · rcases Pool.Answers.handle?_concat.mp given with before | ⟨_, now⟩
    · exact kept handle (booked.known k handle before)
    · rcases anew handle (Option.some.inj now) with about | grown
      · obtain ⟨j, before⟩ := Pool.Order.exists_step asks about
        exact kept handle (booked.known j handle before)
      · simp [grown]
  · rcases anew new result with about | grown
    · exact other about
    · have once := tracks.once
      rw [grown, List.nodup_cons] at once
      exact once.1 (booked.known k new given)

structure Lasts (heap : Heap) (config : Config) (answers : Pool.Answers) (l : Ledger)
    (log : List Nat) (orders : List Pool.Order) : Prop where
  booked : heap.Booked answers l log
  slots : ((⟨config, .ready heap⟩ : Pool).follow answers orders).2.slotCount < UInt32.size
  few : ∀ slot, (log ++ (⟨config, .ready heap⟩ : Pool).retired
    ((⟨config, .ready heap⟩ : Pool).asked answers orders)).count slot < UInt32.size

theorem Lasts.skip (lasts : heap.Lasts config answers l log (order :: rest))
    (none : order.request? answers = none) :
    heap.Lasts config (answers ++ [.none]) l log rest where
  booked := lasts.booked.skip
  slots := Pool.follow_of_none none ▸ lasts.slots
  few := Pool.asked_of_none none ▸ lasts.few

theorem Lasts.slotCount_serve (lasts : heap.Lasts config answers l log (order :: rest))
    (h : heap.Sound cells) (asks : order.request? answers = some request) :
    (heap.serve request).layout.slotCount < UInt32.size := by
  have slots := lasts.slots
  rw [Pool.follow_of_some asks, Pool.follow_ready] at slots
  obtain ⟨_, next⟩ := h.serve request
  obtain ⟨_, _, _, _, grown⟩ := next.foldl_serve _
  exact Nat.lt_of_le_of_lt grown slots

theorem Lasts.serve (lasts : heap.Lasts config answers l log (order :: rest))
    (h : heap.Sound cells) (asks : order.request? answers = some request) :
    answers.Unspent request ((⟨config, .ready heap⟩ : Pool).perform request).1 ∧
      ∃ l' log', (heap.serve request).Lasts config
        (answers ++ [some ((⟨config, .ready heap⟩ : Pool).perform request).1]) l' log' rest := by
  have few := lasts.few
  rw [Pool.asked_of_some asks, Pool.retired_cons (Pool.Order.ne_close asks),
    ← List.append_assoc] at few
  have fewer (slot : Nat) : (log ++ heap.retiring request).count slot < UInt32.size := by
    have total := few slot
    rw [List.count_append] at total
    omega
  obtain ⟨booked, unspent⟩ := lasts.booked.serve h asks (lasts.slotCount_serve h asks) fewer
  exact ⟨unspent, _, _, booked, Pool.follow_of_some asks ▸ lasts.slots, few⟩

/-! ## Steps of twins -/

theorem Twins.serve (t : Twins heap cells answers heap' cells' answers')
    (sized : order ≠ .allocate 0) (asks : order.request? answers = some request)
    (asks' : order.request? answers' = some request')
    (slots : (heap.serve request).layout.slotCount < UInt32.size)
    (slots' : (heap'.serve request').layout.slotCount < UInt32.size)
    (unspent : answers.Unspent request ((⟨config, .ready heap⟩ : Pool).perform request).1)
    (unspent' : answers'.Unspent request' ((⟨config', .ready heap'⟩ : Pool).perform request').1) :
    ∃ next next',
      Twins (heap.serve request) next
        (answers ++ [some ((⟨config, .ready heap⟩ : Pool).perform request).1])
        (heap'.serve request') next'
        (answers' ++ [some ((⟨config', .ready heap'⟩ : Pool).perform request').1]) := by
  have few := Nat.lt_of_le_of_lt (t.steady.sound.slotCount_le_serve request) slots
  have few' := Nat.lt_of_le_of_lt (t.steady'.sound.slotCount_le_serve request') slots'
  cases order with
  | allocate size =>
      cases asks
      cases asks'
      have positive : 0 < size := Nat.pos_of_ne_zero fun zero => sized (zero ▸ rfl)
      refine t.allocate few few' positive (fun new result => ?_) fun new result => ?_
      · exact unspent new (congrArg (Except.map Pool.Reply.handle) result) nofun
      · exact unspent' new (congrArg (Except.map Pool.Reply.handle) result) nofun
  | deallocate step =>
      obtain ⟨handle, given, rfl⟩ := Option.map_eq_some_iff.mp asks
      obtain ⟨handle', given', rfl⟩ := Option.map_eq_some_iff.mp asks'
      exact t.deallocate few few' given given'
  | resize step size =>
      obtain ⟨handle, given, rfl⟩ := Option.map_eq_some_iff.mp asks
      obtain ⟨handle', given', rfl⟩ := Option.map_eq_some_iff.mp asks'
      refine t.resize slots slots' given given' (fun new result other => ?_)
        fun new result other => ?_
      · exact unspent new (congrArg (Except.map Pool.Reply.handle) result) fun same =>
          other (Option.some.inj same).symm
      · exact unspent' new (congrArg (Except.map Pool.Reply.handle) result) fun same =>
          other (Option.some.inj same).symm
  | write step offset data =>
      obtain ⟨handle, given, rfl⟩ := Option.map_eq_some_iff.mp asks
      obtain ⟨handle', given', rfl⟩ := Option.map_eq_some_iff.mp asks'
      exact ⟨cells, cells', t.write few few' given given' offset data⟩

/-! ## Whole scripts -/

theorem Twins.follow (t : Twins heap cells answers heap' cells' answers')
    (lasts : heap.Lasts config answers l log orders)
    (lasts' : heap'.Lasts config' answers' l' log' orders) (sized : .allocate 0 ∉ orders) :
    ∃ next nextCells next' nextCells',
      ((⟨config, .ready heap⟩ : Pool).follow answers orders).2 = ⟨config, .ready next⟩ ∧
      ((⟨config', .ready heap'⟩ : Pool).follow answers' orders).2 = ⟨config', .ready next'⟩ ∧
      next.layout.slotCount < UInt32.size ∧ next'.layout.slotCount < UInt32.size ∧
      Twins next nextCells ((⟨config, .ready heap⟩ : Pool).follow answers orders).1
        next' nextCells' ((⟨config', .ready heap'⟩ : Pool).follow answers' orders).1 := by
  induction orders generalizing heap cells answers l log heap' cells' answers' l' log' with
  | nil => exact ⟨heap, cells, heap', cells', rfl, rfl, lasts.slots, lasts'.slots, t⟩
  | cons order rest ih =>
      rw [List.mem_cons, not_or] at sized
      cases asks : order.request? answers with
      | none =>
          have asks' := (Pool.Order.request?_eq_none_iff t.agree).mp asks
          rw [Pool.follow_of_none asks, Pool.follow_of_none asks']
          exact ih (t.answer rfl nofun nofun) (lasts.skip asks) (lasts'.skip asks') sized.2
      | some request =>
          obtain ⟨request', asks'⟩ : ∃ request', order.request? answers' = some request' := by
            rw [← Option.ne_none_iff_exists', ne_eq, ← Pool.Order.request?_eq_none_iff t.agree]
            simp [asks]
          obtain ⟨unspent, _, _, left⟩ := lasts.serve t.steady.sound asks
          obtain ⟨unspent', _, _, left'⟩ := lasts'.serve t.steady'.sound asks'
          obtain ⟨_, _, next⟩ := t.serve (Ne.symm sized.1) asks asks'
            (lasts.slotCount_serve t.steady.sound asks)
            (lasts'.slotCount_serve t.steady'.sound asks') unspent unspent'
          rw [Pool.follow_of_some asks, Pool.follow_of_some asks']
          exact ih next left left' sized.2

end Heap

namespace Pool

variable {config : Config}

end Pool

end BlockPool
