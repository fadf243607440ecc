import BlockPool.Proofs.LinkedList.Client
import BlockPool.Proofs.Pool.Failure

/-!
# What the pool below a list keeps

A list changes its pool by requests to it and in no other way.  What every
request to a pool keeps is therefore kept by every run of a list, whatever has
been done to the blocks of its nodes.
-/

namespace BlockPool.LinkedList

section Kept

variable {P : Pool → Prop} (kept : ∀ p request, P p → P (p.perform request).2)
  {l : LinkedList}

include kept

theorem kept_free (h : P l.pool) (node : NodeRef) : P (l.free node).2.pool := by
  rw [snd_free]
  exact kept _ (.deallocate node.handle) h

theorem kept_store (h : P l.pool) (node : NodeRef) (contents : Node) :
    P (l.store node contents).2.pool := by
  rw [snd_store]
  exact kept _ (.write node.handle 0 contents.encode) h

theorem kept_relink (h : P l.pool) (before next : Option NodeRef) :
    P (l.relink before next).2.pool := by
  cases before with
  | none => exact h
  | some node =>
      simp only [relink, setNext]
      cases l.load node with
      | error error => exact h
      | ok contents => exact kept_store kept h ..

theorem kept_create (h : P l.pool) (value : UInt16) (next : Option NodeRef) :
    P (l.create value next).2.pool := by
  have made : P (l.onPool fun pool => pool.allocate Node.byteSize).2.pool :=
    kept _ (.allocate Node.byteSize) h
  unfold create
  split
  · next result => rwa [result] at made
  · next handle l₁ result =>
      rw [result] at made
      have stored := kept_store kept made ⟨handle⟩ ⟨value, next⟩
      split
      · next failed =>
          rw [failed] at stored
          exact kept_free kept stored _
      · next done => rwa [done] at stored

theorem kept_place (h : P l.pool) (before : Option NodeRef) (value : UInt16)
    (next : Option NodeRef) : P (l.place before value next).2.pool := by
  have created := kept_create kept h value next
  unfold place
  split
  · next failed => rwa [failed] at created
  · next node l₁ done =>
      rw [done] at created
      have relinked := kept_relink kept created before (some node)
      split
      · next failed =>
          rw [failed] at relinked
          exact kept_free kept relinked _
      · next linked => rwa [linked] at relinked

theorem kept_insert (h : P l.pool) (value : UInt16) : P (l.insert value).2.pool := by
  unfold insert
  split
  · exact h
  · split
    · exact h
    · exact kept_place kept h ..

theorem kept_insertAfter (h : P l.pool) (node : NodeRef) (value : UInt16) :
    P (l.insertAfter node value).2.pool := by
  unfold insertAfter
  split
  · exact h
  · split
    · exact h
    · exact kept_place kept h ..

theorem kept_insertBefore (h : P l.pool) (node : NodeRef) (value : UInt16) :
    P (l.insertBefore node value).2.pool := by
  unfold insertBefore
  split
  · exact h
  · split
    · exact h
    · exact kept_place kept h ..

theorem kept_delete (h : P l.pool) (value : UInt16) : P (l.delete value).2.pool := by
  unfold delete
  split
  · exact h
  · split
    · exact h
    · exact h
    · next passed node contents _ =>
        have relinked := kept_relink kept h (passed.getLast?.map Prod.fst) contents.next
        split
        · next failed => rwa [failed] at relinked
        · next linked =>
            rw [linked] at relinked
            exact kept_free kept relinked _

theorem kept_drain (h : P l.pool) (steps : Nat) : P (l.drain steps).2.pool := by
  induction steps generalizing l with
  | zero =>
      unfold drain
      split <;> exact h
  | succ steps ih =>
      unfold drain
      split
      · exact h
      · next node _ =>
          split
          · exact h
          · have freed := kept_free kept h node
            split
            · next failed => rwa [failed] at freed
            · next done =>
                rw [done] at freed
                exact ih freed

theorem kept_cleanup (h : P l.pool) : P l.cleanup.2.pool := by
  unfold cleanup
  split
  · exact h
  · have drained := kept_drain kept h l.reach
    split
    · next failed => rwa [failed] at drained
    · next l₁ done =>
        rw [done] at drained
        have closed : P (l₁.onPool Pool.close).2.pool := kept _ .close drained
        split
        · next failed => rwa [failed] at closed
        · next ended => rwa [ended] at closed

theorem kept_perform (h : P l.pool) (request : Request) :
    P (l.perform request).2.pool := by
  cases request with
  | insert value => exact kept_insert kept h value
  | insertAfter node value => exact kept_insertAfter kept h node value
  | insertBefore node value => exact kept_insertBefore kept h node value
  | delete value => exact kept_delete kept h value
  | cleanup => exact kept_cleanup kept h
  | onPool request => exact kept _ request h
  | _ => exact h

theorem kept_run (h : P l.pool) (requests : List Request) :
    P (l.run requests).2.pool := by
  induction requests generalizing l with
  | nil => exact h
  | cons request rest ih => exact ih (kept_perform kept h request)

end Kept

theorem reached_run {l : LinkedList} {pool : Pool} {size : Nat}
    (opened : ofPool pool size = .ok l) (requests : List Request) :
    (l.run requests).2.pool.Reached := by
  refine kept_run (fun _ request h => h.perform request) ?_ requests
  obtain ⟨config, rfl⟩ := eq_of_ofPool opened
  rintro _ ⟨⟩
  exact ⟨size, [], rfl⟩

/-! ## Lists that have been cleaned up

Such a list only passes on what is asked of the pool below it.
-/

section Closed

variable {l : LinkedList}

theorem perform_of_closed (closed : l.closed = true) {request : Request}
    (own : ∀ below, request ≠ .onPool below) :
    l.perform request = (.ofList (.error .closed), l) := by
  have ended : l.ensureOpen = .error .closed := by simp [ensureOpen, closed]
  cases request with
  | insert value => rw [perform, insert, ended]; rfl
  | insertAfter node value => rw [perform, insertAfter, ended]; rfl
  | insertBefore node value => rw [perform, insertBefore, ended]; rfl
  | delete value => rw [perform, delete, ended]; rfl
  | search value => rw [perform, search, ended]; rfl
  | displayRange start stop => rw [perform, displayRange, ended]; rfl
  | display => rw [perform, display, displayRange, ended]; rfl
  | length => rw [perform, LinkedList.length, values, ended]; rfl
  | values => rw [perform, values, ended]; rfl
  | first => rw [perform, first, ended]; rfl
  | value node => rw [perform, value, ended]; rfl
  | next node => rw [perform, next, ended]; rfl
  | cleanup => rw [perform, cleanup, ended]; rfl
  | onPool below => exact absurd rfl (own below)

theorem closed_perform (closed : l.closed = true) (request : Request) :
    (l.perform request).2.closed = true := by
  by_cases below : ∃ asked, request = .onPool asked
  · obtain ⟨asked, rfl⟩ := below
    exact closed
  · rw [perform_of_closed closed fun asked same => below ⟨asked, same⟩]
    exact closed

theorem closed_run (closed : l.closed = true) (requests : List Request) :
    (l.run requests).2.closed = true := by
  induction requests generalizing l with
  | nil => exact closed
  | cons request rest ih => exact ih (closed_perform closed request)

end Closed

end BlockPool.LinkedList
