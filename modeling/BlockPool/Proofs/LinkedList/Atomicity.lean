import Mathlib.Data.List.Basic
import BlockPool.Proofs.LinkedList.Below

/-!
# Edits of a list whose links may be damaged

An edit loads all nodes that it needs before it changes anything, and what it
does then cannot fail: a new block is not one of those, a block that has been
loaded is large enough to be written, and the node that is taken out is still
in use.  So an edit that fails leaves everything as it was, and no new node is
ever given back.
-/

namespace BlockPool.LinkedList

def Request.isEdit : Request → Bool
  | .delete _ => true
  | request => request.adds

def afterFailure (l : LinkedList) : ListError → LinkedList
  | .pool error => { l with pool := l.pool.afterFailure error }
  | _ => l

/-- The place that a request finds for a new node: what it comes behind, what it holds and
what it leads to. -/
inductive Finds (l : LinkedList) : Request → Option NodeRef → Node → Prop where
  | last (value : UInt16) (trail : Trail)
      (walked : (l.trail fun _ contents => contents.next = none) = .ok trail) :
      Finds l (.insert value) (trail.hit.map Prod.fst) ⟨value, none⟩
  | after (node : NodeRef) (value : UInt16) (contents : Node)
      (found : l.member node = .ok contents) :
      Finds l (.insertAfter node value) (some node) ⟨value, contents.next⟩
  | before (node : NodeRef) (value : UInt16) (previous : Option NodeRef)
      (found : l.predecessor node = .ok previous) :
      Finds l (.insertBefore node value) previous ⟨value, some node⟩

variable {l : LinkedList} {config : Config} {heap : Heap} {cells : List Cell}
  {before next : Option NodeRef} {node : NodeRef} {contents made : Node} {request : Request}
  {stop : NodeRef → Node → Bool} {trail : Trail} {error : ListError}

/-- What looking for a place fails with: nothing is counted, and the links are not followed
to an end only if they have none. -/
structure Unfound (l : LinkedList) (error : ListError) : Prop where
  uncounted : l.afterFailure error = l
  endless : error = .endless → l.Endless l.head

/-! ## Walks before an edit -/

theorem afterFailure_of_load (sound : l.pool.Sound) (lost : l.load node = .error error) :
    l.afterFailure error = l := by
  cases ready : l.pool.heap with
  | error refusal =>
      rw [load_unready ready] at lost
      cases lost
      rw [afterFailure, Pool.afterFailure_unready ready]
  | ok heap =>
      obtain ⟨cells, pool, sound⟩ := sound.exists_of_heap ready
      rw [load_ready pool sound, Contents.inspect] at lost
      split at lost
      · cases lost
        rfl
      · split at lost <;> cases lost
        rfl

theorem Followed.afterFailure_eq (sound : l.pool.Sound) {steps : Nat} {start : Option NodeRef}
    {result : Except ListError Trail} (followed : l.Followed stop steps start result)
    (lost : result = .error error) : l.afterFailure error = l := by
  induction followed with
  | ended => cases lost
  | exhausted node =>
      cases lost
      rfl
  | lost steps node error failed =>
      cases lost
      exact afterFailure_of_load sound failed
  | hit => cases lost
  | passed _ _ _ _ _ result _ ih =>
      cases result with
      | ok rest => cases lost
      | error refusal => exact ih lost

theorem unfound_of_trail (sound : l.pool.Sound) (lost : l.trail stop = .error error) :
    l.Unfound error where
  uncounted := (l.followed ..).afterFailure_eq sound lost
  endless := by
    rintro rfl
    exact endless_of_follow sound lost

theorem unfound_of_member (sound : l.pool.Sound) (lost : l.member node = .error error) :
    l.Unfound error := by
  unfold member at lost
  split at lost
  · next walked =>
      cases lost
      exact unfound_of_trail sound walked
  · cases lost
    exact ⟨rfl, nofun⟩
  · cases lost

theorem unfound_of_predecessor (sound : l.pool.Sound)
    (lost : l.predecessor node = .error error) : l.Unfound error := by
  unfold predecessor at lost
  split at lost
  · cases lost
  · split at lost
    · next walked =>
        cases lost
        exact unfound_of_trail sound walked
    · cases lost
      exact ⟨rfl, nofun⟩
    · cases lost

theorem Followed.load_of_hit {steps : Nat} {start : Option NodeRef}
    {result : Except ListError Trail} (followed : l.Followed stop steps start result)
    (walked : result = .ok trail) (hit : trail.hit = some (node, contents)) :
    l.load node = .ok contents ∧ stop node contents = true := by
  induction followed generalizing trail with
  | ended =>
      cases walked
      cases hit
  | exhausted => cases walked
  | lost => cases walked
  | hit _ _ _ loaded stopped =>
      cases walked
      cases hit
      exact ⟨loaded, stopped⟩
  | passed _ _ _ _ _ result _ ih =>
      cases result with
      | error refusal => cases walked
      | ok rest =>
          cases walked
          exact ih rfl hit

def Loads (l : LinkedList) (before : Option NodeRef) : Prop :=
  ∀ node, before = some node → ∃ contents, l.load node = .ok contents

theorem loads_of_hit {steps : Nat} {start : Option NodeRef}
    (walked : l.follow stop steps start = .ok trail) : l.Loads (trail.hit.map Prod.fst) := by
  intro node named
  obtain ⟨⟨_, contents⟩, hit, rfl⟩ := Option.map_eq_some_iff.mp named
  exact ⟨contents, ((l.followed ..).load_of_hit walked hit).1⟩

theorem load_of_member (found : l.member node = .ok contents) : l.load node = .ok contents := by
  unfold member at found
  split at found
  · cases found
  · cases found
  · next visited read walked =>
      cases found
      obtain ⟨loaded, same⟩ := (l.followed ..).load_of_hit walked rfl
      rw [← of_decide_eq_true same]
      exact loaded

theorem loads_of_predecessor (found : l.predecessor node = .ok before) : l.Loads before := by
  unfold predecessor at found
  split at found
  · cases found
    exact nofun
  · split at found
    · cases found
    · cases found
    · next visited read walked =>
        cases found
        rintro _ ⟨⟩
        exact ⟨read, ((l.followed ..).load_of_hit walked rfl).1⟩

theorem Finds.loads (finds : l.Finds request before made) : l.Loads before := by
  cases finds with
  | last value trail walked => exact loads_of_hit walked
  | after node value contents found =>
      rintro _ ⟨⟩
      exact ⟨contents, load_of_member found⟩
  | before node value previous found => exact loads_of_predecessor found

/-! ## Changes -/

theorem create_unready {error : PoolError} (unready : l.pool.heap = .error error)
    (value : UInt16) (next : Option NodeRef) :
    l.create value next = (.error (.pool error), l) := by
  obtain ⟨⟨config, phase⟩, head, closed⟩ := l
  cases phase with
  | ready heap => cases unready
  | _ => cases unready; rfl

theorem exists_store_of_allocate (sound : l.pool.Sound) {handle : Handle} {l₁ : LinkedList}
    (given : (l.onPool fun pool => pool.allocate Node.byteSize) = (.ok handle, l₁))
    (slots : l₁.pool.slotCount < UInt32.size) (made : Node) :
    ∃ l₂, l₁.store ⟨handle⟩ made = (.ok (), l₂) := by
  have allocated := congrArg Prod.fst given
  cases ready : l.pool.heap with
  | error error =>
      have refused : (l.pool.allocate Node.byteSize).1 = .error error :=
        congrArg Prod.fst (Pool.onHeap_of_error _ ready)
      cases refused.symm.trans allocated
  | ok heap =>
      obtain ⟨cells, pool, sound⟩ := sound.exists_of_heap ready
      have result := onPool_eq pool fun heap => heap.allocate Node.byteSize
      have left : l₁ = l.withHeap heap.config (heap.allocate Node.byteSize).2 :=
        congrArg Prod.snd (given.symm.trans result)
      have answer : (heap.allocate Node.byteSize).1 = .ok handle :=
        congrArg Prod.fst (result.symm.trans given)
      rw [left] at slots ⊢
      rcases allocate_cases sound slots with
        ⟨_, full⟩ | ⟨_, heap₁, cells₁, bytes, _, placed, sound₁, _, length, contents⟩
      · rw [full] at answer
        cases answer
      · rw [placed] at answer ⊢
        cases answer
        have live : heap₁.contents (NodeRef.mk handle).handle = some bytes := by
          rw [contents, Contents.set_self]
        obtain ⟨_, stored, _⟩ := exists_store (pool_withHeap l _ _) sound₁ live length made
        exact ⟨_, stored⟩

theorem exists_store_of_load (pool : l.pool = ⟨config, .ready heap⟩) (sound : heap.Sound cells)
    (loaded : l.load node = .ok contents) (made : Node) :
    ∃ heap', l.store node made = (.ok (), l.withHeap config heap') ∧
      heap'.layout = heap.layout := by
  rw [load_ready pool sound] at loaded
  obtain ⟨b, named, room⟩ := exists_block_of_inspect loaded sound
  exact ⟨_, store_eq pool named room made, Heap.layout_written ..⟩

theorem Loads.exists_relink (loads : l.Loads before) (pool : l.pool = ⟨config, .ready heap⟩)
    (sound : heap.Sound cells) (next : Option NodeRef) :
    ∃ l' heap', l.relink before next = (.ok (), l') ∧
      l'.pool = ⟨config, .ready heap'⟩ ∧ heap'.layout = heap.layout := by
  cases before with
  | none => exact ⟨_, heap, rfl, pool, rfl⟩
  | some node =>
      obtain ⟨contents, loaded⟩ := loads node rfl
      obtain ⟨heap', stored, layout⟩ :=
        exists_store_of_load pool sound loaded { contents with next }
      refine ⟨l.withHeap config heap', heap', ?_, rfl, layout⟩
      rw [relink, setNext, loaded]
      exact stored

theorem create_outcome (sound : l.pool.Sound) {value : UInt16} {next : Option NodeRef}
    (slots : (l.create value next).2.pool.slotCount < UInt32.size) :
    (∃ error, l.create value next = (.error error, l.afterFailure error) ∧
      error ≠ .endless) ∨
    ∃ node heap heap₁ cells cells₁ bytes,
      l.create value next = (.ok node, l.withHeap heap.config heap₁) ∧
      l.pool = ⟨heap.config, .ready heap⟩ ∧ heap.Sound cells ∧ heap₁.Sound cells₁ ∧
      heap.contents node.handle = none ∧
      heap₁.contents = heap.contents.set node.handle bytes := by
  cases ready : l.pool.heap with
  | error error =>
      refine .inl ⟨.pool error, ?_, by rintro ⟨⟩⟩
      rw [create_unready ready, afterFailure, Pool.afterFailure_unready ready]
  | ok heap =>
      obtain ⟨cells, pool, sound⟩ := sound.exists_of_heap ready
      rw [slotCount_create, pool] at slots
      rcases create_cases pool sound slots value next with
        ⟨_, refused⟩ | ⟨node, heap₁, cells₁, _, made, sound₁, _, _, unused, contents⟩
      · refine .inl ⟨.pool (heap.noRoom Node.byteSize), ?_, by rintro ⟨⟩⟩
        have counted : (⟨heap.config, .ready heap⟩ : Pool).countFailure =
            ⟨heap.config, .ready heap.countFailure⟩ := Pool.countFailure_ready rfl
        rw [refused, afterFailure, pool]
        exact congrArg (fun pool => (_, LinkedList.mk pool l.head l.closed)) counted.symm
      · exact .inr ⟨node, heap, heap₁, cells, cells₁, _, made, pool, sound, sound₁, unused,
          contents⟩

/-- A node that has been made for the list is no block that was in use before, so what
could be loaded still can. -/
theorem Loads.exists_link (loads : l.Loads before) (sound : l.pool.Sound)
    {value : UInt16} {next : Option NodeRef} {l₁ : LinkedList}
    (created : l.create value next = (.ok node, l₁))
    (slots : l₁.pool.slotCount < UInt32.size) :
    ∃ l₂, l₁.relink before (some node) = (.ok (), l₂) := by
  have few : (l.create value next).2.pool.slotCount < UInt32.size := by rwa [created]
  rcases create_outcome sound few with ⟨error, refused, _⟩ |
    ⟨_, heap, heap₁, cells, cells₁, bytes, made, pool, sound, sound₁, unused, contents⟩
  · rw [refused] at created
    cases created
  · rw [made] at created
    cases created
    have later : (l.withHeap heap.config heap₁).Loads before := by
      intro other named
      obtain ⟨read, loaded⟩ := loads other named
      refine ⟨read, ?_⟩
      rw [load_ready pool sound] at loaded
      obtain ⟨b, live, _⟩ := exists_block_of_inspect loaded sound
      have distinct : other.handle ≠ node.handle := by
        intro same
        rw [same, Heap.contents_eq_none_iff.mp unused] at live
        cases live
      rw [load_ready rfl sound₁, Contents.inspect, contents, Contents.set_of_ne _ _ distinct]
      exact loaded
    obtain ⟨l₂, _, linked, _⟩ := later.exists_relink rfl sound₁ (some node)
    exact ⟨l₂, linked⟩

theorem place_outcome (sound : l.pool.Sound) (loads : l.Loads before) {value : UInt16}
    {next : Option NodeRef}
    (slots : (l.place before value next).2.pool.slotCount < UInt32.size) :
    (∃ error, l.place before value next = (.error error, l.afterFailure error) ∧
      error ≠ .endless) ∨
    ∃ node l', l.place before value next = (.ok node, l') := by
  rw [slotCount_place, ← slotCount_create l value next] at slots
  rcases create_outcome sound slots with ⟨error, refused, ends⟩ | ⟨node, _, _, _, _, _, made, _⟩
  · exact .inl ⟨error, by rw [place, refused], ends⟩
  · rw [made] at slots
    obtain ⟨l₂, linked⟩ := loads.exists_link sound made slots
    refine .inr ⟨node, l₂, ?_⟩
    rw [place, made]
    simp only [linked]

/-! ## What an edit comes to -/

theorem fst_answer {α : Type} (form : α → Reply) (result : Except ListError α × LinkedList) :
    (answer form result).1 = .ofList (result.1.map form) := rfl

theorem Finds.perform_eq (finds : l.Finds request before made) (isOpen : l.closed = false) :
    l.perform request = answer .node (l.place before made.value made.next) := by
  have opened := ensureOpen_of_open isOpen
  cases finds with
  | last value trail walked => simp only [perform, insert, opened, walked]
  | after node value contents found => simp only [perform, insertAfter, opened, found]
  | before node value previous found => simp only [perform, insertBefore, opened, found]

theorem Finds.exists_placed (finds : l.Finds request before made) (sound : l.pool.Sound)
    (isOpen : l.closed = false) {handle : Handle} {l₁ : LinkedList}
    (given : (l.onPool fun pool => pool.allocate Node.byteSize) = (.ok handle, l₁))
    (slots : l₁.pool.slotCount < UInt32.size) :
    ∃ l₂ l₃, l₁.store ⟨handle⟩ made = (.ok (), l₂) ∧
      l₂.relink before (some ⟨handle⟩) = (.ok (), l₃) ∧
      l.perform request = (.ofList (.ok (.node ⟨handle⟩)), l₃) := by
  obtain ⟨l₂, stored⟩ := exists_store_of_allocate sound given slots made
  have created : l.create made.value made.next = (.ok ⟨handle⟩, l₂) := by
    rw [create, given]
    simp only [stored]
  have kept : l₂.pool.slotCount = l₁.pool.slotCount := by
    rw [← slotCount_store l₁ ⟨handle⟩ made, stored]
  obtain ⟨l₃, linked⟩ := finds.loads.exists_link sound created (kept ▸ slots)
  refine ⟨l₂, l₃, stored, linked, ?_⟩
  rw [finds.perform_eq isOpen, place, created]
  simp only [linked]
  rfl

theorem perform_adds (sound : l.pool.Sound) (adds : request.adds = true) :
    (∃ error, l.perform request = (.ofList (.error error), l) ∧ l.Unfound error) ∨
      ∃ before made, l.Finds request before made ∧
        l.perform request = answer .node (l.place before made.value made.next) := by
  by_cases closed : l.closed = true
  · refine .inl ⟨.closed, perform_of_closed closed ?_, rfl, nofun⟩
    rintro below rfl
    cases adds
  have isOpen := Bool.of_not_eq_true closed
  have opened := ensureOpen_of_open isOpen
  have placed {before : Option NodeRef} {made : Node} (finds : l.Finds request before made) :
      ∃ before made, l.Finds request before made ∧
        l.perform request = answer .node (l.place before made.value made.next) :=
    ⟨before, made, finds, finds.perform_eq isOpen⟩
  cases request with
  | insert value =>
      cases walked : l.trail fun _ contents => contents.next = none with
      | error error =>
          refine .inl ⟨error, ?_, unfound_of_trail sound walked⟩
          simp only [perform, insert, opened, walked]
          rfl
      | ok trail => exact .inr (placed (.last value trail walked))
  | insertAfter node value =>
      cases found : l.member node with
      | error error =>
          refine .inl ⟨error, ?_, unfound_of_member sound found⟩
          simp only [perform, insertAfter, opened, found]
          rfl
      | ok contents => exact .inr (placed (.after node value contents found))
  | insertBefore node value =>
      cases found : l.predecessor node with
      | error error =>
          refine .inl ⟨error, ?_, unfound_of_predecessor sound found⟩
          simp only [perform, insertBefore, opened, found]
          rfl
      | ok previous => exact .inr (placed (.before node value previous found))
  | _ => cases adds

theorem loads_of_passed {steps : Nat} {start : Option NodeRef}
    (walked : l.follow stop steps start = .ok trail) :
    l.Loads (trail.passed.getLast?.map Prod.fst) := by
  intro node named
  obtain ⟨⟨_, contents⟩, last, rfl⟩ := Option.map_eq_some_iff.mp named
  exact ⟨contents, (load_of_mem_passed walked (List.mem_of_getLast? last)).1⟩

/-- Changing a link frees no block, so the node that is taken out is still in use. -/
theorem exists_delete_of_hit (sound : l.pool.Sound) (isOpen : l.closed = false) {v : UInt16}
    (walked : (l.trail fun _ contents => contents.value = v) = .ok trail)
    (hit : trail.hit = some (node, contents)) : ∃ l', l.delete v = (.ok (), l') := by
  have opened := ensureOpen_of_open isOpen
  have loaded := ((l.followed ..).load_of_hit walked hit).1
  obtain ⟨heap, ready⟩ := exists_heap_of_load loaded
  obtain ⟨cells, pool, sound⟩ := sound.exists_of_heap ready
  obtain ⟨l₁, heap₁, relinked, pool₁, layout⟩ :=
    (loads_of_passed walked).exists_relink pool sound contents.next
  rw [load_ready pool sound] at loaded
  obtain ⟨b, named, _⟩ := exists_block_of_inspect loaded sound
  rw [← Heap.range?_congr layout] at named
  obtain ⟨passed, found⟩ := trail
  obtain rfl : found = some (node, contents) := hit
  refine ⟨l₁.withHeap heap.config (heap₁.freed node.handle.index.toNat), ?_⟩
  rw [delete, opened]
  simp only [walked, relinked]
  exact free_eq pool₁ named

theorem perform_deletes (sound : l.pool.Sound) (v : UInt16) :
    (∃ error, l.perform (.delete v) = (.ofList (.error error), l) ∧ l.Unfound error) ∨
      ∃ l', l.perform (.delete v) = (.ofList (.ok .done), l') := by
  by_cases closed : l.closed = true
  · exact .inl ⟨.closed, perform_of_closed closed (by rintro _ ⟨⟩), rfl, by rintro ⟨⟩⟩
  have isOpen := Bool.of_not_eq_true closed
  have opened := ensureOpen_of_open isOpen
  cases walked : l.trail fun _ contents => contents.value = v with
  | error error =>
      refine .inl ⟨error, ?_, unfound_of_trail sound walked⟩
      simp only [perform, delete, opened, walked]
      rfl
  | ok trail =>
      obtain ⟨passed, hit⟩ := trail
      cases hit with
      | none =>
          refine .inl ⟨.valueNotFound v, ?_, rfl, by rintro ⟨⟩⟩
          simp only [perform, delete, opened, walked]
          rfl
      | some found =>
          obtain ⟨l', deleted⟩ := exists_delete_of_hit sound isOpen walked rfl
          exact .inr ⟨l', by rw [perform, deleted]; rfl⟩

theorem edit_outcome (sound : l.pool.Sound) (edit : request.isEdit = true)
    (slots : (l.perform request).2.pool.slotCount < UInt32.size) :
    (∃ error, l.perform request = (.ofList (.error error), l.afterFailure error) ∧
      (error = .endless → l.Endless l.head)) ∨
    ∃ answer l', l.perform request = (.ofList (.ok answer), l') := by
  have early {error : ListError} (refused : l.perform request = (.ofList (.error error), l))
      (unfound : l.Unfound error) :
      ∃ error, l.perform request = (.ofList (.error error), l.afterFailure error) ∧
        (error = .endless → l.Endless l.head) :=
    ⟨error, by rw [refused, unfound.uncounted], unfound.endless⟩
  by_cases adds : request.adds = true
  · rcases perform_adds sound adds with ⟨error, refused, unfound⟩ | ⟨before, made, finds, placed⟩
    · exact .inl (early refused unfound)
    · rw [placed] at slots ⊢
      rcases place_outcome sound finds.loads slots with ⟨error, refused, ends⟩ | ⟨node, l', added⟩
      · exact .inl ⟨error, by rw [refused]; rfl, fun endless => absurd endless ends⟩
      · exact .inr ⟨.node node, l', by rw [added]; rfl⟩
  · cases request with
    | delete v =>
        rcases perform_deletes sound v with ⟨error, refused, unfound⟩ | ⟨l', done⟩
        · exact .inl (early refused unfound)
        · exact .inr ⟨.done, l', done⟩
    | _ => exact absurd edit adds

theorem edit_fails (sound : l.pool.Sound) (edit : request.isEdit = true)
    (failed : (l.perform request).1 = .ofList (.error error))
    (slots : (l.perform request).2.pool.slotCount < UInt32.size) :
    (l.perform request).2 = l.afterFailure error ∧ (error = .endless → l.Endless l.head) := by
  rcases edit_outcome sound edit slots with ⟨refusal, refused, ends⟩ | ⟨reply, l', done⟩
  · rw [refused] at failed ⊢
    cases failed
    exact ⟨rfl, ends⟩
  · rw [done] at failed
    cases failed

/-- Whatever has been done to the blocks of its nodes, an edit of a list that fails leaves
the list and its pool as they were, but for the count of requests that found no room.  A
block that has been given for a node is filled, linked in and answered; none is given back. -/
theorem failed_edit_unchanged (reached : l.pool.Reached) (edit : request.isEdit = true) :
    (∀ error, (l.perform request).1 = .ofList (.error error) →
      (l.perform request).2.pool.slotCount < UInt32.size →
      (l.perform request).2 = l.afterFailure error ∧
        (error = .endless → l.Endless l.head)) ∧
    ∀ before made, l.Finds request before made → l.closed = false →
      ∀ handle l₁, (l.onPool fun pool => pool.allocate Node.byteSize) = (.ok handle, l₁) →
        l₁.pool.slotCount < UInt32.size →
        ∃ l₂ l₃, l₁.store ⟨handle⟩ made = (.ok (), l₂) ∧
          l₂.relink before (some ⟨handle⟩) = (.ok (), l₃) ∧
          l.perform request = (.ofList (.ok (.node ⟨handle⟩)), l₃) :=
  ⟨fun _ failed slots => edit_fails reached.sound edit failed slots,
    fun _ _ finds isOpen _ _ given slots =>
      finds.exists_placed reached.sound isOpen given slots⟩

theorem failed_edit_unchanged_dangling :
    ∃ l l', ofPool ⟨.debug, .uninitialized⟩ 64 = .ok l ∧
      (l.run [.insert 5, .insert 6, .onPool (.deallocate ⟨1, 0⟩)]).2 = l' ∧
      (l'.perform (.insert 7)).1 = .ofList (.error (.nodeNotFound ⟨⟨1, 0⟩⟩)) ∧
      (l'.perform (.insert 7)).2 = l' := by
  have opened : ofPool ⟨.debug, .uninitialized⟩ 64 =
      .ok ⟨⟨.debug, .ready (.ofSize 64 .debug)⟩, none, false⟩ := rfl
  have refused : (insert (run ⟨⟨.debug, .ready (.ofSize 64 .debug)⟩, none, false⟩
      [.insert 5, .insert 6, .onPool (.deallocate ⟨1, 0⟩)]).2 7).1 =
        .error (.nodeNotFound ⟨⟨1, 0⟩⟩) := by
    decide +kernel
  have answered : (perform (run ⟨⟨.debug, .ready (.ofSize 64 .debug)⟩, none, false⟩
      [.insert 5, .insert 6, .onPool (.deallocate ⟨1, 0⟩)]).2 (.insert 7)).1 =
        .ofList (.error (.nodeNotFound ⟨⟨1, 0⟩⟩)) := by
    rw [perform, fst_answer, refused]
    rfl
  have edit : (Request.insert 7).isEdit = true := rfl
  have failed := (failed_edit_unchanged (reached_run opened _) edit).1
    (.nodeNotFound ⟨⟨1, 0⟩⟩) answered (by decide +kernel)
  exact ⟨_, _, opened, rfl, answered, failed.1⟩

end BlockPool.LinkedList
