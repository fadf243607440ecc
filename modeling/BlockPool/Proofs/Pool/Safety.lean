import BlockPool.Proofs.Pool.Checked

/-!
# Runs without overflow

The requests to a pool, and whole runs, put together from checked operations.
A run of checked requests is the run of the plain ones: whatever the arguments
of the requests are, no number leaves its word, no range leaves the buffer or
its block, and no slot is looked for outside the table.
-/

namespace BlockPool

namespace Pool

open Heap

variable {config : Config} {p : Pool} {heap : Heap} {cells : List Cell} {n : Nat}

def setUp? (p : Pool) (size : Nat) : Option (Except PoolError Unit × Pool) :=
  match p with
  | ⟨config, .uninitialized⟩ =>
      if size = 0 then
        some (.error (.invalidConfig .emptyPool), ⟨config, .uninitialized⟩)
      else do
        let layout ← Layout.spanning? size
        return (.ok (), ⟨config, .ready { Heap.ofSize size config with layout }⟩)
  | ⟨config, .ready heap⟩ => some (.error .alreadyInitialized, ⟨config, .ready heap⟩)
  | ⟨config, .closed⟩ => some (.error .alreadyClosed, ⟨config, .closed⟩)

def close? (p : Pool) : Option (Except PoolError Statistics × Pool) :=
  match p with
  | ⟨config, .uninitialized⟩ => some (.error .notInitialized, ⟨config, .uninitialized⟩)
  | ⟨config, .ready heap⟩ => do
      let statistics ← heap.statistics?
      return (.ok statistics, ⟨config, .closed⟩)
  | ⟨config, .closed⟩ => some (.error .alreadyClosed, ⟨config, .closed⟩)

def onHeap? {α : Type} (p : Pool)
    (operation : Heap → Option (Except PoolError α × Heap)) :
    Option (Except PoolError α × Pool) :=
  match p with
  | ⟨config, .uninitialized⟩ => some (.error .notInitialized, ⟨config, .uninitialized⟩)
  | ⟨config, .ready heap⟩ => do
      let (result, heap) ← operation heap
      return (result, ⟨config, .ready heap⟩)
  | ⟨config, .closed⟩ => some (.error .alreadyClosed, ⟨config, .closed⟩)

def ask? {α : Type} (p : Pool) (question : Heap → Option (Except PoolError α)) :
    Option (Except PoolError α × Pool) :=
  p.onHeap? fun heap => (question heap).map (·, heap)

def perform? (p : Pool) : Request → Option (Except PoolError Reply × Pool)
  | .setUp size => (p.setUp? size).map (reply fun _ => .done)
  | .close => p.close?.map (reply .statistics)
  | .allocate size => (p.onHeap? fun heap => heap.allocate? size).map (reply .handle)
  | .deallocate handle =>
      (p.onHeap? fun heap => heap.deallocate? handle).map (reply fun _ => .done)
  | .resize handle size =>
      (p.onHeap? fun heap => heap.resize? handle size).map (reply .handle)
  | .read handle => (p.ask? fun heap => heap.read? handle).map (reply .bytes)
  | .readAt handle offset length =>
      (p.ask? fun heap => heap.readAt? handle offset length).map (reply .bytes)
  | .write handle offset data =>
      (p.onHeap? fun heap => heap.write? handle offset data).map (reply fun _ => .done)
  | .statistics => (p.ask? fun heap => heap.statistics?.map .ok).map (reply .statistics)
  | .check => (p.ask? Heap.check?).map (reply fun _ => .done)
  -- The other requests neither compute with words nor look at the bytes.
  | request => some (p.perform request)

def run? (p : Pool) : List Request → Option (List (Except PoolError Reply) × Pool)
  | [] => some ([], p)
  | request :: rest => do
      let (result, p) ← p.perform? request
      let (results, p) ← p.run? rest
      return (result :: results, p)

/-! ## One request -/

theorem perform?_unready (unready : ∀ heap, p.phase ≠ .ready heap) (request : Request) :
    p.perform? request = some (p.perform request) := by
  obtain ⟨config, phase⟩ := p
  cases phase with
  | ready heap => exact absurd rfl (unready heap)
  | closed => cases request <;> rfl
  | uninitialized =>
      cases request with
      | setUp size => cases size <;> rfl
      | _ => rfl

theorem perform?_ready (h : heap.Sound cells) (bounded : heap.size < UInt64.size)
    (few : heap.counters.Below n) (room : n < UInt64.size) (request : Request)
    (slots : heap.layout.slotCount < UInt32.size)
    (slots' : (heap.serve request).layout.slotCount < UInt32.size) :
    (⟨config, .ready heap⟩ : Pool).perform? request =
      some ((⟨config, .ready heap⟩ : Pool).perform request) := by
  cases request with
  | allocate size =>
      simp only [perform?, onHeap?, h.allocate?_eq bounded few room slots']
      rfl
  | deallocate handle =>
      simp only [perform?, onHeap?, h.deallocate?_eq bounded few room]
      rfl
  | resize handle size =>
      simp only [perform?, onHeap?, h.resize?_eq bounded few room handle slots']
      rfl
  | read handle =>
      simp only [perform?, ask?, onHeap?, h.read?_eq bounded]
      rfl
  | readAt handle offset length =>
      simp only [perform?, ask?, onHeap?, h.readAt?_eq bounded]
      rfl
  | write handle offset data =>
      simp only [perform?, onHeap?, h.write?_eq bounded]
      rfl
  | statistics =>
      simp only [perform?, ask?, onHeap?, h.statistics?_eq bounded slots]
      rfl
  | check =>
      simp only [perform?, ask?, onHeap?, h.check?_eq bounded slots]
      rfl
  | close =>
      simp only [perform?, close?, h.statistics?_eq bounded slots]
      rfl
  | _ => rfl

/-! ## What requests keep -/

/-- The buffer has addresses and the counters are still low, if there are any. -/
def Fits (p : Pool) (n : Nat) : Prop :=
  ∀ heap, p.phase = .ready heap → heap.size < UInt64.size ∧ heap.counters.Below n

theorem fits_ready (bounded : heap.size < UInt64.size) (few : heap.counters.Below n) :
    (⟨config, .ready heap⟩ : Pool).Fits n := by
  rintro _ ⟨⟩
  exact ⟨bounded, few⟩

theorem below_serve (h : heap.Sound cells) (few : heap.counters.Below n)
    {request : Request} (isOpen : request ≠ .close)
    (slots : heap.layout.slotCount < UInt32.size) :
    (heap.serve request).counters.Below (n + 1) := by
  have outcome := h.outcome heap.config isOpen
  cases tracked : heap.config.trackStats with
  | true => exact (outcome.grows h tracked slots).below few
  | false =>
      rw [outcome.counters_eq h tracked]
      exact ⟨Nat.lt_succ_of_lt few.allocations, Nat.lt_succ_of_lt few.deallocations,
        Nat.lt_succ_of_lt few.resizes, Nat.lt_succ_of_lt few.failures⟩

theorem Sound.fits_perform (h : p.Sound) (fits : p.Fits n) {request : Request}
    (bounded : ∀ size, request = .setUp size → size < UInt64.size)
    (slots : p.slotCount < UInt32.size) : (p.perform request).2.Fits (n + 1) := by
  obtain ⟨config, phase⟩ := p
  have closed : (⟨config, .closed⟩ : Pool).Fits (n + 1) := nofun
  have waiting : (⟨config, .uninitialized⟩ : Pool).Fits (n + 1) := nofun
  cases phase with
  | closed => cases request <;> exact closed
  | uninitialized =>
      cases request with
      | setUp size =>
          cases size with
          | zero => exact waiting
          | succ size =>
              have small := bounded _ rfl
              rw [← size_ofSize (size + 1) config] at small
              have zero := Nat.succ_pos n
              exact fits_ready small ⟨zero, zero, zero, zero⟩
      | _ => exact waiting
  | ready heap =>
      obtain ⟨same, cells, sound⟩ := h heap rfl
      obtain ⟨small, few⟩ := fits heap rfl
      by_cases closing : request = .close
      · rw [closing]
        exact closed
      · rw [perform_ready closing]
        have size := (sound.change request).size_eq
        exact fits_ready (size ▸ small) (below_serve sound few closing slots)

theorem Sound.slotCount_perform_le (h : p.Sound) (request : Request) :
    (p.perform request).2.slotCount ≤ p.slotCount + 1 := by
  obtain ⟨config, phase⟩ := p
  cases phase with
  | closed => cases request <;> exact Nat.zero_le _
  | uninitialized =>
      cases request with
      | setUp size =>
          cases size with
          | zero => exact Nat.zero_le _
          | succ size => exact Nat.le_refl _
      | _ => exact Nat.zero_le _
  | ready heap =>
      obtain ⟨_, cells, sound⟩ := h heap rfl
      by_cases closing : request = .close
      · rw [closing]
        exact Nat.zero_le _
      · rw [perform_ready closing]
        exact (sound.change request).slotCount_bounds.2

/-! ## Requests to pools that runs reach -/

theorem Sound.perform?_eq (h : p.Sound) (fits : p.Fits n) (room : n < UInt64.size)
    (request : Request) (slots : p.slotCount < UInt32.size)
    (slots' : (p.perform request).2.slotCount < UInt32.size) :
    p.perform? request = some (p.perform request) := by
  obtain ⟨config, phase⟩ := p
  cases phase with
  | ready heap =>
      obtain ⟨_, cells, sound⟩ := h heap rfl
      obtain ⟨small, few⟩ := fits heap rfl
      by_cases closing : request = .close
      · subst closing
        exact perform?_ready sound small few room .close slots slots
      · rw [perform_ready closing] at slots'
        exact perform?_ready sound small few room request slots slots'
  | _ =>
      refine perform?_unready ?_ request
      exact nofun

theorem Sound.perform_ne_corruption (h : p.Sound) (fits : p.Fits n) (request : Request)
    (damage : Damage) : (p.perform request).1 ≠ .error (.corruption damage) := by
  obtain ⟨config, phase⟩ := p
  cases phase with
  | ready heap =>
      obtain ⟨_, cells, sound⟩ := h heap rfl
      exact Pool.perform_ne_corruption sound (fits heap rfl).1 request damage
  | closed => cases request <;> exact nofun
  | uninitialized =>
      cases request with
      | setUp size => cases size <;> exact nofun
      | _ => exact nofun

/-! ## Runs -/

theorem Sound.run?_eq (h : p.Sound) {requests : List Request} (fits : p.Fits n)
    (bounded : ∀ size, .setUp size ∈ requests → size < UInt64.size)
    (short : n + requests.length ≤ UInt64.size)
    (slots : ∀ first, first <+: requests → (p.run first).2.slotCount < UInt32.size) :
    p.run? requests = some (p.run requests) ∧
      ∀ result ∈ (p.run requests).1, ∀ damage, result ≠ .error (.corruption damage) := by
  induction requests generalizing p n with
  | nil => exact ⟨rfl, nofun⟩
  | cons request rest ih =>
      rw [List.length_cons] at short
      have here := slots [] List.nil_prefix
      have there := slots [request] (List.prefix_append [request] rest)
      have step := h.perform?_eq fits (by omega) request here there
      obtain ⟨later, clean⟩ := ih (h.perform request)
        (h.fits_perform fits (fun size same => bounded size (by simp [same])) here)
        (fun size member => bounded size (List.mem_cons_of_mem _ member)) (by omega)
        (fun first before => slots (request :: first) (List.prefix_cons_inj request |>.mpr before))
      constructor
      · rw [run?, step, run_cons]
        simp only [Option.bind_eq_bind, Option.bind_some, later]
        rfl
      · intro result member damage
        rw [run_cons, List.mem_cons] at member
        rcases member with rfl | later
        · exact h.perform_ne_corruption fits request damage
        · exact clean result later damage

theorem Sound.slotCount_run_le (h : p.Sound) (requests : List Request) :
    (p.run requests).2.slotCount ≤ p.slotCount + requests.length := by
  induction requests generalizing p with
  | nil => exact Nat.le_refl _
  | cons request rest ih =>
      have later := ih (h.perform request)
      have step := h.slotCount_perform_le request
      rw [run_cons, List.length_cons]
      simp only
      omega

/-- Whatever is asked of a pool, no number leaves its word, no place is looked for where there
is none, and no operation finds anything wrong with the bookkeeping. -/
theorem run_checked {requests : List Request}
    (bounded : ∀ size, .setUp size ∈ requests → size < Layout.addressBound)
    (short : requests.length < Layout.addressBound)
    (slots : ∀ first, first <+: requests →
      ((⟨config, .uninitialized⟩ : Pool).run first).2.slotCount < UInt32.size) :
    (⟨config, .uninitialized⟩ : Pool).run? requests =
        some ((⟨config, .uninitialized⟩ : Pool).run requests) ∧
      ∀ result ∈ ((⟨config, .uninitialized⟩ : Pool).run requests).1, ∀ damage,
        result ≠ .error (.corruption damage) := by
  have fresh : (⟨config, .uninitialized⟩ : Pool).Sound := nofun
  have empty : (⟨config, .uninitialized⟩ : Pool).Fits 0 := nofun
  exact fresh.run?_eq empty bounded (by rw [Nat.zero_add]; exact Nat.le_of_lt short) slots

def boundaryScript : List Request :=
  [.setUp 16, .allocate 16, .allocate (UInt64.size - 1), .allocate 0,
    .readAt ⟨0, 0⟩ (UInt64.size - 1) (UInt64.size - 1), .write ⟨0, 0⟩ 15 [1],
    .write ⟨1, 0⟩ 0 [], .resize ⟨1, 0⟩ (UInt64.size - 1), .deallocate ⟨0, 0⟩, .resize ⟨1, 0⟩ 9,
    .statistics, .check, .close]

theorem run_checked_boundary :
    (⟨.debug, .uninitialized⟩ : Pool).run? boundaryScript =
        some ((⟨.debug, .uninitialized⟩ : Pool).run boundaryScript) ∧
      ∀ result ∈ ((⟨.debug, .uninitialized⟩ : Pool).run boundaryScript).1, ∀ damage,
        result ≠ .error (.corruption damage) := by
  refine run_checked ?_ (by decide) ?_
  · intro size member
    obtain rfl : size = 16 := by simpa [boundaryScript] using member
    decide
  · intro first before
    have fresh : (⟨.debug, .uninitialized⟩ : Pool).Sound := nofun
    have grown := fresh.slotCount_run_le first
    exact Nat.lt_of_le_of_lt (Nat.le_trans grown (Nat.add_le_add_left before.length_le _))
      (by decide)

end Pool

end BlockPool
