import BlockPool.Pool.Shared
import BlockPool.Proofs.Pool.Outcome

/-!
# The life of the shared pool

The milestones of a script, the set-up and the close that succeeded, are all
that the phase of the pool depends on, and the phase decides which requests
are turned away for it.  The configuration of the pool is told by the first
request of the script that makes it.
-/

namespace BlockPool

/-! ## Errors of a heap -/

def InPhase {α : Type} (result : Except PoolError α) : Prop :=
  ∀ error, result = .error error → error.isLifecycle = false

theorem inPhase_ok {α : Type} (value : α) : InPhase (.ok value) := nofun

theorem inPhase_error {α : Type} {error : PoolError} (other : error.isLifecycle = false) :
    InPhase (.error error : Except PoolError α) := by
  rintro _ ⟨⟩
  exact other

theorem InPhase.map {α β : Type} {result : Except PoolError α} (h : InPhase result)
    (form : α → β) : InPhase (result.map form) :=
  fun error failed => h error (eq_error_of_map failed)

namespace Heap

variable (heap : Heap) (handle : Handle) (offset length size index : Nat)

theorem inPhase_handleAt : InPhase (heap.handleAt index) := by
  rw [handleAt]
  split
  · exact inPhase_error rfl
  · exact inPhase_ok _

theorem inPhase_allocate : InPhase (heap.allocate size).1 := by
  rw [allocate]
  split
  · exact inPhase_error rfl
  · exact inPhase_handleAt _ _

theorem inPhase_deallocate : InPhase (heap.deallocate handle).1 := by
  rw [deallocate_eq]
  split
  · exact inPhase_error rfl
  · exact inPhase_ok _

theorem inPhase_usedRecord : InPhase (heap.usedRecord handle) := by
  rw [usedRecord_eq]
  split
  · exact inPhase_error rfl
  · split
    · exact inPhase_ok _
    · exact inPhase_error rfl

theorem inPhase_resize : InPhase (heap.resize handle size).1 := by
  have looked := heap.inPhase_usedRecord handle
  rw [resize]
  split
  · next error failed => exact inPhase_error (looked error failed)
  · split
    · exact inPhase_ok _
    · split
      · exact inPhase_error rfl
      · simp only
        split
        · exact inPhase_error rfl
        · exact inPhase_handleAt _ _

theorem inPhase_block : InPhase (heap.block handle) :=
  (heap.inPhase_usedRecord handle).map _

theorem inPhase_readAt : InPhase (heap.readAt handle offset length) := by
  have looked := heap.inPhase_block handle
  rw [readAt]
  split
  · next error failed => exact inPhase_error (looked error failed)
  · split
    · exact inPhase_ok _
    · exact inPhase_error rfl

theorem inPhase_write (data : List UInt8) : InPhase (heap.write handle offset data).1 := by
  have looked := heap.inPhase_block handle
  rw [write]
  split
  · next error failed => exact inPhase_error (looked error failed)
  · split
    · exact inPhase_ok _
    · exact inPhase_error rfl

theorem inPhase_check : InPhase heap.check := by
  rw [check]
  split
  · exact inPhase_error rfl
  · simp only
    split
    · exact inPhase_ok _
    · exact inPhase_error rfl

end Heap

/-! ## Stages of a pool -/

inductive Milestone where
  | opened
  | closed
  deriving DecidableEq, Repr

namespace Pool

def Request.isSetUp : Request → Bool
  | .setUp _ => true
  | _ => false

/-- Whether a request asks for nothing that only a heap can tell. -/
def Request.isPlain : Request → Bool
  | .phase | .isReady | .config | .debug => true
  | _ => false

def milestone? : Entry → Option Milestone
  | (.setUp _, .ok _) => some .opened
  | (.close, .ok _) => some .closed
  | _ => none

def stage (p : Pool) : List Milestone :=
  match p.phase with
  | .uninitialized => []
  | .ready _ => [.opened]
  | .closed => [.opened, .closed]

variable {p : Pool} {request : Request}

theorem stage_prefix (p : Pool) : p.stage <+: [.opened, .closed] := by
  unfold stage
  split <;> decide

theorem exists_ready_of_stage (opened : p.stage = [.opened]) :
    ∃ heap, p = ⟨p.config, .ready heap⟩ := by
  obtain ⟨config, phase⟩ := p
  cases phase with
  | ready heap => exact ⟨heap, rfl⟩
  | uninitialized => cases opened
  | closed => cases opened

@[simp] theorem config_perform (p : Pool) (request : Request) :
    (p.perform request).2.config = p.config := by
  cases request with
  | setUp size => exact config_setUp p size
  | close => exact config_close p
  | allocate size => exact config_onHeap p _
  | deallocate handle => exact config_onHeap p _
  | resize handle size => exact config_onHeap p _
  | write handle offset data => exact config_onHeap p _
  | _ => rfl

theorem stage_perform (p : Pool) (request : Request) :
    (p.perform request).2.stage =
      p.stage ++ (milestone? (request, (p.perform request).1)).toList := by
  obtain ⟨config, phase⟩ := p
  cases phase with
  | uninitialized =>
      cases request with
      | setUp size => cases size <;> rfl
      | _ => rfl
  | ready heap =>
      by_cases closing : request = .close
      · subst closing
        rfl
      · rw [perform_ready closing]
        cases request with
        | close => exact absurd rfl closing
        | _ => rfl
  | closed => cases request <;> rfl

theorem perform_of_plain (plain : request.isPlain = true) :
    ∃ reply, p.perform request = (.ok reply, p) := by
  cases request with
  | phase | isReady | config | debug => exact ⟨_, rfl⟩
  | _ => cases plain

theorem perform_waiting (waiting : p.stage = []) (asks : request.isPlain = false)
    (other : request.isSetUp = false) :
    (p.perform request).1 = .error .notInitialized := by
  obtain ⟨config, phase⟩ := p
  cases phase with
  | uninitialized =>
      cases request with
      | setUp size => cases other
      | phase | isReady | config | debug => cases asks
      | _ => rfl
  | ready heap => cases waiting
  | closed => cases waiting

theorem perform_ended (ended : p.stage = [.opened, .closed])
    (asks : request.isPlain = false) :
    (p.perform request).1 = .error .alreadyClosed := by
  obtain ⟨config, phase⟩ := p
  cases phase with
  | closed =>
      cases request with
      | phase | isReady | config | debug => cases asks
      | _ => rfl
  | uninitialized => cases ended
  | ready heap => cases ended

theorem inPhase_perform (opened : p.stage = [.opened]) (other : request.isSetUp = false) :
    InPhase (p.perform request).1 := by
  obtain ⟨heap, same⟩ := exists_ready_of_stage opened
  rw [same]
  cases request with
  | setUp size => cases other
  | allocate size => exact (heap.inPhase_allocate size).map _
  | deallocate handle => exact (heap.inPhase_deallocate handle).map _
  | resize handle size => exact (heap.inPhase_resize handle size).map _
  | read handle => exact ((heap.inPhase_block handle).map _).map _
  | readAt handle offset length => exact (heap.inPhase_readAt handle offset length).map _
  | write handle offset data => exact (heap.inPhase_write handle offset data).map _
  | block handle => exact (heap.inPhase_block handle).map _
  | check => exact heap.inPhase_check.map _
  | _ => exact inPhase_ok _

theorem perform_close_eq (p : Pool) :
    (p.perform .close).1 = (p.perform .statistics).1 := by
  obtain ⟨config, phase⟩ := p
  cases phase <;> rfl

end Pool

/-! ## Scripts on the shared pool -/

namespace Shared

def chosen? : Request → Option Config
  | .configure config => if config.validate.isOk then some config else none
  | .onPool _ => some Config.default

def milestone? : Request × Except PoolError Pool.Reply → Option Milestone
  | (.configure _, _) => none
  | (.onPool request, result) => Pool.milestone? (request, result)

def milestones (s : Shared) (requests : List Request) : List Milestone :=
  (requests.zip (s.run requests).1).filterMap milestone?

example : absent.milestones [.onPool .close, .configure .production, .onPool (.setUp 0),
    .onPool (.setUp 8), .onPool (.setUp 8), .onPool .close, .onPool (.setUp 8)] =
    [.opened, .closed] := rfl

variable {s : Shared} {config : Config} {requests : List Request}

theorem run_cons (s : Shared) (request : Request) (rest : List Request) :
    s.run (request :: rest) =
      ((s.step request).1 :: ((s.step request).2.run rest).1,
        ((s.step request).2.run rest).2) := rfl

theorem milestones_cons (s : Shared) (request : Request) (rest : List Request) :
    s.milestones (request :: rest) =
      (milestone? (request, (s.step request).1)).toList ++
        (s.step request).2.milestones rest := by
  rw [milestones, run_cons, List.zip_cons_cons, List.filterMap_cons]
  cases milestone? (request, (s.step request).1) <;> rfl

theorem configure_of_invalid {fault : ConfigFault}
    (invalid : config.validate = .error fault) :
    s.configure config = (.error (.invalidConfig fault), s) := by
  rw [configure, Pool.withConfig, invalid]

theorem configure_of_absent (valid : config.validate = .ok ()) :
    absent.configure config = (.ok ⟨config, .uninitialized⟩, ⟨some ⟨config, .uninitialized⟩⟩) := by
  simp only [configure, Pool.withConfig, valid]
  rfl

theorem configure_of_some (valid : config.validate = .ok ()) (p : Pool) :
    (⟨some p⟩ : Shared).configure config = (.error .alreadyInitialized, ⟨some p⟩) := by
  simp only [configure, Pool.withConfig, valid]

inductive Configuring (s : Shared) (config : Config) : Prop where
  | invalid (fault : ConfigFault) (reason : config.validate = .error fault)
      (result : s.configure config = (.error (.invalidConfig fault), s))
  | late (valid : config.validate = .ok ()) (p : Pool) (made : s.pool = some p)
      (result : s.configure config = (.error .alreadyInitialized, s))
  | made (valid : config.validate = .ok ()) (none : s = absent)
      (result : s.configure config =
        (.ok ⟨config, .uninitialized⟩, ⟨some ⟨config, .uninitialized⟩⟩))

theorem configuring (s : Shared) (config : Config) : s.Configuring config := by
  obtain ⟨pool⟩ := s
  cases valid : config.validate with
  | error fault => exact .invalid fault valid (configure_of_invalid valid)
  | ok _ =>
      cases pool with
      | none => exact .made valid rfl (configure_of_absent valid)
      | some p => exact .late valid p rfl (configure_of_some valid p)

/-! ## Steps and runs -/

theorem stage_step (s : Shared) (request : Request) :
    (s.step request).2.current.stage =
      s.current.stage ++ (milestone? (request, (s.step request).1)).toList := by
  cases request with
  | onPool request => exact s.current.stage_perform request
  | configure config =>
      rw [step, milestone?, Option.toList_none, List.append_nil]
      cases s.configuring config with
      | invalid fault _ result => rw [result]
      | late _ p _ result => rw [result]
      | made _ none result =>
          rw [result, none]
          rfl

theorem stage_run (s : Shared) (requests : List Request) :
    (s.run requests).2.current.stage = s.current.stage ++ s.milestones requests := by
  induction requests generalizing s with
  | nil => rw [milestones, List.zip_nil_left, List.filterMap_nil, List.append_nil, run]
  | cons request rest ih =>
      rw [run_cons, milestones_cons, ih, stage_step, List.append_assoc]

theorem config_step (s : Shared) (request : Request) :
    (s.step request).2.pool.map Pool.config =
      (s.pool.map Pool.config).or (chosen? request) := by
  cases request with
  | onPool request =>
      change some (s.current.perform request).2.config = _
      rw [Pool.config_perform]
      obtain ⟨_ | p⟩ := s <;> rfl
  | configure config =>
      rw [step, chosen?]
      cases s.configuring config with
      | invalid fault reason result =>
          rw [result, reason]
          simp [Except.isOk, Except.toBool]
      | late valid p made result =>
          rw [result, made]
          rfl
      | made valid none result =>
          rw [result, none, valid]
          rfl

theorem config_run (s : Shared) (requests : List Request) :
    (s.run requests).2.pool.map Pool.config =
      (s.pool.map Pool.config).or (requests.findSome? chosen?) := by
  induction requests generalizing s with
  | nil => rw [run, List.findSome?_nil, Option.or_none]
  | cons request rest ih =>
      rw [run_cons, ih, config_step, Option.or_assoc]
      congr 1
      cases chosen : chosen? request <;> simp [chosen]

/-- What a script has come to: the configuration that its requests have chosen, its milestones,
and how any request that follows them ends. -/
structure Lifecycle (s : Shared) (requests : List Request) : Prop where
  config : s.pool.map Pool.config = requests.findSome? chosen?
  milestones : absent.milestones requests <+: [.opened, .closed]
  first : requests.findSome? chosen? = none → ∀ config, config.validate = .ok () →
    (s.configure config).1 = .ok ⟨config, .uninitialized⟩
  invalid : ∀ config fault, config.validate = .error fault →
    (s.step (.configure config)).1 = .error (.invalidConfig fault)
  late : (requests.findSome? chosen?).isSome → ∀ config, config.validate = .ok () →
    (s.step (.configure config)).1 = .error .alreadyInitialized
  unchanged : ∀ config error, (s.step (.configure config)).1 = .error error →
    (s.step (.configure config)).2 = s
  waiting : absent.milestones requests = [] → ∀ request : Pool.Request,
    request.isPlain = false → request.isSetUp = false →
      (s.step (.onPool request)).1 = .error .notInitialized
  again : absent.milestones requests = [.opened] → ∀ size,
    (s.step (.onPool (.setUp size))).1 = .error .alreadyInitialized
  serving : absent.milestones requests = [.opened] → ∀ request : Pool.Request,
    request.isSetUp = false → InPhase (s.step (.onPool request)).1
  ended : absent.milestones requests = [.opened, .closed] → ∀ request : Pool.Request,
    request.isPlain = false → (s.step (.onPool request)).1 = .error .alreadyClosed
  plain : ∀ request : Pool.Request, request.isPlain = true →
    ∃ reply, (s.step (.onPool request)).1 = .ok reply
  last : (s.step (.onPool .close)).1 = (s.step (.onPool .statistics)).1

/-- The shared pool is made once, set up once and closed once, whatever is asked of it. -/
theorem run_lifecycle (requests : List Request) :
    (absent.run requests).2.Lifecycle requests := by
  have chosen := config_run absent requests
  have stage := stage_run absent requests
  rw [show absent.current.stage = [] from rfl, List.nil_append] at stage
  rw [show absent.pool.map Pool.config = none from rfl, Option.none_or] at chosen
  generalize (absent.run requests).2 = s at chosen stage
  refine ⟨chosen, ?_, ?_, ?_, ?_, ?_, ?_, ?_, ?_, ?_, ?_, ?_⟩
  · rw [← stage]
    exact s.current.stage_prefix
  · intro none config valid
    rw [← chosen, Option.map_eq_none_iff] at none
    cases s.configuring config with
    | invalid fault reason _ => exact nomatch reason.symm.trans valid
    | late _ p made _ => exact nomatch none.symm.trans made
    | made _ _ result => rw [result]
  · intro config fault reason
    rw [step, configure_of_invalid reason]
    rfl
  · intro made config valid
    rw [← chosen, Option.isSome_map, Option.isSome_iff_exists] at made
    obtain ⟨p, made⟩ := made
    cases s.configuring config with
    | invalid fault reason _ => exact nomatch reason.symm.trans valid
    | late _ _ _ result => rw [step, result]; rfl
    | made _ none _ => exact nomatch (congrArg Shared.pool none).symm.trans made
  · intro config error failed
    rw [step] at failed ⊢
    cases s.configuring config with
    | invalid _ _ result => rw [result]
    | late _ _ _ result => rw [result]
    | made _ _ result =>
        rw [result] at failed
        cases failed
  · intro waiting request asks other
    exact Pool.perform_waiting (stage.trans waiting) asks other
  · intro opened size
    obtain ⟨heap, same⟩ := Pool.exists_ready_of_stage (stage.trans opened)
    rw [step, perform, same]
    rfl
  · intro opened request other
    exact Pool.inPhase_perform (stage.trans opened) other
  · intro ended request asks
    exact Pool.perform_ended (stage.trans ended) asks
  · intro request plain
    obtain ⟨reply, result⟩ := s.current.perform_of_plain plain
    exact ⟨reply, congrArg Prod.fst result⟩
  · exact s.current.perform_close_eq

end Shared

end BlockPool
