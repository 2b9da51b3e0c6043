import Luchta.Impl.Watcher

/-!
# What a batch covers

* `mem_collectWatchBatch`: a batch has every path of its events that the ignore filter keeps.
* `Extends`: batches only ever grow while they are put together.
-/

namespace Luchta.Proof.Watch

open Luchta.Framework Luchta.Impl

/-- Some event that is not an access has this path, and the ignore filter keeps it. -/
def Selects (filter : IgnoreFilter) (fs : FsView) (events : List DebouncedEvent) (q : Path) : Prop :=
  ∃ event ∈ events, isAccessEvent event.kind = false ∧
    ∃ path ∈ event.paths, normalizeAbsolutePath fs path = some q ∧
      ((isIgnoreFile q && filter.shouldProcessIgnoreFile q) = true ∨ filter.shouldIgnore fs q = false)

/-- What `a` reports is also reported by `b`. -/
structure Extends (a b : WatchBatch) : Prop where
  changedPaths : a.changedPaths ⊆ b.changedPaths
  rescan : a.rescan = true → b.rescan = true
  failure : a.failure.isSome → b.failure.isSome

variable {a b c : WatchBatch} {filter : IgnoreFilter} {fs : FsView}

theorem Extends.refl (a : WatchBatch) : Extends a a := ⟨subset_rfl, id, id⟩

theorem Extends.trans (h : Extends a b) (h' : Extends b c) : Extends a c :=
  ⟨h.changedPaths.trans h'.changedPaths, h'.rescan ∘ h.rescan, h'.failure ∘ h.failure⟩

/-- Folding a step that extends the batch extends it. -/
theorem extends_foldl {α : Type} {f : WatchBatch → α → WatchBatch} (hf : ∀ b x, Extends b (f b x))
    (l : List α) (b : WatchBatch) : Extends b (l.foldl f b) := by
  induction l generalizing b with
  | nil => exact .refl b
  | cons x l ih => exact (hf b x).trans (ih _)

/-- What the step for one item reports is reported in the end. -/
theorem extends_foldl_of_mem {α : Type} {f : WatchBatch → α → WatchBatch}
    (hf : ∀ b x, Extends b (f b x)) {l : List α} {x : α} (hx : x ∈ l) (b : WatchBatch) :
    ∃ b', Extends (f b' x) (l.foldl f b) := by
  induction l generalizing b with
  | nil => contradiction
  | cons y l ih =>
    rcases List.mem_cons.1 hx with rfl | hx
    · exact ⟨b, extends_foldl hf l _⟩
    · exact ih hx _

theorem extends_recordChangedPath (kind : EventKind) (b : WatchBatch) (path : Path) :
    Extends b (recordChangedPath filter fs kind b path) := by
  unfold recordChangedPath
  split
  · exact ⟨Finset.subset_insert _ _, fun _ => rfl, id⟩
  · split
    · exact .refl b
    · exact ⟨Finset.subset_insert _ _, id, id⟩

theorem extends_collectWatchEvent (b : WatchBatch) (event : DebouncedEvent) :
    Extends b (collectWatchEvent filter fs b event) := by
  have hrescan : Extends b { b with rescan := b.rescan || event.needRescan } :=
    ⟨subset_rfl, fun h => by simp [h], id⟩
  unfold collectWatchEvent
  dsimp only
  split
  · exact hrescan
  · exact hrescan.trans (extends_foldl (extends_recordChangedPath event.kind) _ _)

theorem mem_recordChangedPath {kind : EventKind} {path : Path}
    (h : (isIgnoreFile path && filter.shouldProcessIgnoreFile path) = true ∨
      filter.shouldIgnore fs path = false) :
    path ∈ (recordChangedPath filter fs kind b path).changedPaths := by
  unfold recordChangedPath
  split
  · exact Finset.mem_insert_self _ _
  · rename_i hfile
    rw [if_neg (by simp [h.resolve_left hfile])]
    exact Finset.mem_insert_self _ _

theorem mem_collectWatchBatch {events : List DebouncedEvent} {q : Path}
    (h : Selects filter fs events q) : q ∈ (collectWatchBatch filter fs events).changedPaths := by
  obtain ⟨event, hevent, haccess, path, hpath, hnorm, hkeep⟩ := h
  obtain ⟨b, hb⟩ := extends_foldl_of_mem (extends_collectWatchEvent)
    hevent .default
  refine hb.changedPaths ?_
  unfold collectWatchEvent
  dsimp only
  rw [if_neg (by simp [haccess])]
  obtain ⟨b', hb'⟩ := extends_foldl_of_mem
    (extends_recordChangedPath event.kind)
    (List.mem_filterMap.2 ⟨path, hpath, hnorm⟩) { b with rescan := b.rescan || event.needRescan }
  exact hb'.changedPaths (mem_recordChangedPath hkeep)

theorem mem_bridgeEventBatch {watch : WatchOutcome} {debouncer : Lock Unit}
    {watchedDirs : Lock (Finset Path)} {events : List DebouncedEvent} {q : Path}
    (h : Selects filter fs events q) :
    q ∈ (bridgeEventBatch fs watch debouncer (some filter) watchedDirs events).1.changedPaths :=
  mem_collectWatchBatch h

/-- An empty batch reports nothing. -/
theorem extends_default_of_isEmpty (h : a.isEmpty = true) : Extends a .default := by
  simp only [WatchBatch.isEmpty, Bool.and_eq_true, decide_eq_true_eq, Bool.not_eq_true',
    Option.isNone_iff_eq_none] at h
  obtain ⟨⟨⟨⟨hchanged, -⟩, hrescan⟩, -⟩, hfailure⟩ := h
  refine ⟨by rw [hchanged]; exact Finset.empty_subset _, fun h => ?_, fun h => ?_⟩
  · rw [hrescan] at h
    contradiction
  · rw [hfailure] at h
    contradiction

/-- A list of errors fails or asks for a rescan. -/
theorem backendErrorBatch_reports (errors : List NotifyError) :
    (errors.any isTerminalBackendError = true → (backendErrorBatch errors).failure.isSome) ∧
    (errors.any isTerminalBackendError = false → (backendErrorBatch errors).failure = none ∧
      (backendErrorBatch errors).rescan = true) := by
  unfold backendErrorBatch
  split
  · rename_i hterminal
    exact ⟨fun _ => rfl, fun h => absurd hterminal (by simp [h])⟩
  · rename_i hterminal
    exact ⟨fun h => absurd h hterminal, fun _ => ⟨rfl, rfl⟩⟩

end Luchta.Proof.Watch
