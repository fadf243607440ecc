import BlockPool.Proofs.Pool.Refinement

/-!
# Scripts that name handles by steps

An order asks for an operation on the block that an earlier step gave out.  So
the same script can be followed by pools that give out different handles.  Two
lists of answers say the same if they do once the handles in them are blotted
out.
-/

namespace BlockPool

def PoolError.anonymous : PoolError → PoolError
  | .notFound _ => .notFound ⟨0, 0⟩
  | error => error

namespace Pool

def Reply.anonymous : Reply → Reply
  | .handle _ => .handle ⟨0, 0⟩
  | reply => reply

def anonymous (result : Except PoolError Reply) : Except PoolError Reply :=
  match result with
  | .ok reply => .ok reply.anonymous
  | .error error => .error error.anonymous

/-- The answers to the steps so far; a step that names a block which was never given out
has none. -/
abbrev Answers := List (Option (Except PoolError Reply))

namespace Answers

def handle? (answers : Answers) (step : Nat) : Option Handle :=
  match answers[step]? with
  | some (some (.ok (.handle handle))) => some handle
  | _ => none

def anonymous (answers : Answers) : Answers := answers.map fun answer => answer.map Pool.anonymous

variable {answers answers' : Answers} {answer : Option (Except PoolError Reply)} {step : Nat}
  {handle : Handle}

theorem handle?_eq_some_iff :
    answers.handle? step = some handle ↔
      answers[step]? = some (some (.ok (.handle handle))) := by
  unfold handle?
  split
  · next given => simp [given]
  · next other =>
      constructor
      · exact nofun
      · exact fun given => absurd given (other handle)

theorem handle?_concat :
    handle? (answers ++ [answer]) step = some handle ↔
      answers.handle? step = some handle ∨
        step = answers.length ∧ answer = some (.ok (.handle handle)) := by
  rw [handle?_eq_some_iff, handle?_eq_some_iff]
  rcases Nat.lt_trichotomy step answers.length with earlier | rfl | later
  · rw [List.getElem?_append_left earlier]
    simp [Nat.ne_of_lt earlier]
  · simp
  · have beyond : (answers ++ [answer]).length ≤ step := by
      rw [List.length_append]
      exact later
    simp [List.getElem?_eq_none beyond, List.getElem?_eq_none (Nat.le_of_lt later),
      Nat.ne_of_gt later]

theorem length_eq (same : answers.anonymous = answers'.anonymous) :
    answers.length = answers'.length := by
  simpa [anonymous] using congrArg List.length same

theorem anonymous_concat (same : answers.anonymous = answers'.anonymous)
    {answer' : Option (Except PoolError Reply)}
    (alike : answer.map Pool.anonymous = answer'.map Pool.anonymous) :
    anonymous (answers ++ [answer]) = anonymous (answers' ++ [answer']) := by
  simp only [anonymous, List.map_append] at same ⊢
  rw [same]
  simp [alike]

theorem exists_handle? (same : answers.anonymous = answers'.anonymous)
    (given : answers.handle? step = some handle) :
    ∃ handle', answers'.handle? step = some handle' := by
  have there := congrArg (fun all => all[step]?) same
  rw [handle?_eq_some_iff] at given
  simp only [anonymous, List.getElem?_map, given] at there
  simp only [handle?_eq_some_iff]
  cases found : answers'[step]? with
  | none => simp [found] at there
  | some answer =>
      rw [found] at there
      cases answer with
      | none => cases there
      | some result =>
          cases result with
          | error error => cases there
          | ok reply =>
              cases reply with
              | handle handle' => exact ⟨handle', rfl⟩
              | _ => cases there

theorem handle?_eq_none_iff (same : answers.anonymous = answers'.anonymous) :
    answers.handle? step = none ↔ answers'.handle? step = none := by
  simp only [Option.eq_none_iff_forall_ne_some, ne_eq]
  constructor
  · intro none handle given
    obtain ⟨handle', given'⟩ := exists_handle? same.symm given
    exact none handle' given'
  · intro none handle given
    obtain ⟨handle', given'⟩ := exists_handle? same given
    exact none handle' given'

end Answers

/-! ## Following a script -/

inductive Order where
  | allocate (size : Nat)
  | deallocate (step : Nat)
  | resize (step size : Nat)
  | write (step offset : Nat) (data : List UInt8)
  deriving DecidableEq, Repr

def Order.request? (answers : Answers) : Order → Option Request
  | .allocate size => some (.allocate size)
  | .deallocate step => (answers.handle? step).map .deallocate
  | .resize step size => (answers.handle? step).map fun handle => .resize handle size
  | .write step offset data =>
      (answers.handle? step).map fun handle => .write handle offset data

namespace Order

variable {answers answers' : Answers} {order : Order} {request : Request} {handle : Handle}

theorem isQuery_eq_false (asks : order.request? answers = some request) :
    request.isQuery = false := by
  cases order with
  | allocate size =>
      cases asks
      rfl
  | _ =>
      obtain ⟨handle, _, rfl⟩ := Option.map_eq_some_iff.mp asks
      rfl

theorem ne_close (asks : order.request? answers = some request) : request ≠ .close := by
  rintro rfl
  cases order with
  | allocate size => cases asks
  | _ =>
      obtain ⟨handle, _, other⟩ := Option.map_eq_some_iff.mp asks
      cases other

theorem exists_step (asks : order.request? answers = some request)
    (about : request.handle? = some handle) : ∃ step, answers.handle? step = some handle := by
  cases order with
  | allocate size =>
      cases asks
      cases about
  | _ =>
      obtain ⟨named, given, rfl⟩ := Option.map_eq_some_iff.mp asks
      cases about
      exact ⟨_, given⟩

theorem request?_eq_none_iff (same : answers.anonymous = answers'.anonymous) :
    order.request? answers = none ↔ order.request? answers' = none := by
  cases order with
  | allocate size => exact ⟨nofun, nofun⟩
  | _ => simp only [request?, Option.map_eq_none_iff, Answers.handle?_eq_none_iff same]

end Order

def follow (p : Pool) (answers : Answers) : List Order → Answers × Pool
  | [] => (answers, p)
  | order :: rest =>
      match order.request? answers with
      | none => p.follow (answers ++ [none]) rest
      | some request =>
          (p.perform request).2.follow (answers ++ [some (p.perform request).1]) rest

def asked (p : Pool) (answers : Answers) : List Order → List Request
  | [] => []
  | order :: rest =>
      match order.request? answers with
      | none => p.asked (answers ++ [none]) rest
      | some request =>
          request :: (p.perform request).2.asked (answers ++ [some (p.perform request).1]) rest

section Follow

variable {config : Config} {heap : Heap} {answers : Answers} {order : Order}
  {orders rest : List Order} {request : Request}

theorem follow_of_none {p : Pool} (none : order.request? answers = none) :
    p.follow answers (order :: rest) = p.follow (answers ++ [.none]) rest := by
  rw [follow, none]

theorem follow_of_some (asks : order.request? answers = some request) :
    (⟨config, .ready heap⟩ : Pool).follow answers (order :: rest) =
      (⟨config, .ready (heap.serve request)⟩ : Pool).follow
        (answers ++ [some ((⟨config, .ready heap⟩ : Pool).perform request).1]) rest := by
  rw [follow, asks, ← perform_ready (Order.ne_close asks)]

theorem asked_of_none {p : Pool} (none : order.request? answers = none) :
    p.asked answers (order :: rest) = p.asked (answers ++ [.none]) rest := by
  rw [asked, none]

theorem asked_of_some (asks : order.request? answers = some request) :
    (⟨config, .ready heap⟩ : Pool).asked answers (order :: rest) =
      request :: (⟨config, .ready (heap.serve request)⟩ : Pool).asked
        (answers ++ [some ((⟨config, .ready heap⟩ : Pool).perform request).1]) rest := by
  rw [asked, asks, ← perform_ready (Order.ne_close asks)]

theorem follow_ready (heap : Heap) (answers : Answers) (orders : List Order) :
    ((⟨config, .ready heap⟩ : Pool).follow answers orders).2 =
      ⟨config, .ready
        (((⟨config, .ready heap⟩ : Pool).asked answers orders).foldl Heap.serve heap)⟩ := by
  induction orders generalizing heap answers with
  | nil => rfl
  | cons order rest ih =>
      cases asks : order.request? answers with
      | none => rw [follow_of_none asks, asked_of_none asks, ih]
      | some request => rw [follow_of_some asks, asked_of_some asks, ih, List.foldl_cons]

end Follow

end Pool

end BlockPool
