import Mathlib.Data.List.Basic
import Mathlib.Logic.Function.Basic

/-!
# A directory that power failures interrupt

The names of one directory and the files they lead to, by inode. What a file holds is on the disk once the
file is synced; until then a power failure may leave anything of it. The changes of the directory reach the
disk in the order in which they are made, and all of them have when the directory is synced.

* `Volume.versions`: the directories that a power failure may leave.
* `Volume.create`, `Volume.append`, `Volume.rename`, `Volume.remove`, `Volume.sync`, `Volume.syncDir`: what
  programs do.
* `Volume.powerFailure`: what may be left.
-/

namespace Luchta.Framework

structure Volume (κ β : Type*) where
  /-- The directory on the disk. -/
  disk : κ → Option Nat
  /-- The directory after each change since, oldest first. -/
  later : List (κ → Option Nat)
  data : Nat → List β
  synced : Nat → Bool
  /-- Inodes from here on have not been used. -/
  nextInode : Nat

namespace Volume

variable {κ β : Type*}

def empty : Volume κ β := ⟨fun _ => none, [], fun _ => [], fun _ => true, 0⟩

def versions (v : Volume κ β) : List (κ → Option Nat) := v.disk :: v.later

/-- The directory that programs see. -/
def current (v : Volume κ β) : κ → Option Nat := v.later.getLastD v.disk

def read (v : Volume κ β) (name : κ) : Option (List β) := (v.current name).map v.data

def change (v : Volume κ β) (d : κ → Option Nat) : Volume κ β := { v with later := v.later ++ [d] }

def append (v : Volume κ β) (file : Nat) (bytes : List β) : Volume κ β :=
  { v with
    data := Function.update v.data file (v.data file ++ bytes)
    synced := Function.update v.synced file false }

def sync (v : Volume κ β) (file : Nat) : Volume κ β :=
  { v with synced := Function.update v.synced file true }

def syncDir (v : Volume κ β) : Volume κ β := { v with disk := v.current, later := [] }

/-- The directory is left in one of its versions, and the files that are not synced hold anything. -/
def powerFailure (v : Volume κ β) (version : Nat) (torn : Nat → List β) : Volume κ β :=
  { v with
    disk := v.versions.getD version v.current
    later := []
    data := fun file => if v.synced file then v.data file else torn file
    synced := fun _ => true }

section Names

variable [DecidableEq κ]

/-- The file that opening a name for writing leads to: what it holds is dropped. -/
def opened (v : Volume κ β) (name : κ) : Nat := (v.current name).getD v.nextInode

def create (v : Volume κ β) (name : κ) : Volume κ β :=
  let w := { v with
    data := Function.update v.data (v.opened name) []
    synced := Function.update v.synced (v.opened name) false }
  match v.current name with
  | some _ => w
  | none => { w.change (Function.update v.current name (some v.nextInode)) with nextInode := v.nextInode + 1 }

def rename (v : Volume κ β) (a b : κ) : Option (Volume κ β) :=
  (v.current a).map fun file =>
    v.change (Function.update (Function.update v.current a none) b (some file))

def remove (v : Volume κ β) (name : κ) : Volume κ β := v.change (Function.update v.current name none)

end Names

variable {v w : Volume κ β} {d d' : κ → Option Nat} {name : κ} {file : Nat}

theorem current_mem (v : Volume κ β) : v.current ∈ v.versions := by
  unfold current versions
  cases h : v.later.getLast? with
  | none =>
    rw [List.getLast?_eq_none_iff.1 h]
    exact List.mem_cons_self
  | some d =>
    rw [List.getLastD_eq_getLast?, h]
    exact List.mem_cons_of_mem _ (List.mem_of_getLast? h)

@[simp] theorem current_change : (v.change d).current = d := by simp [change, current]

theorem mem_versions_change : d' ∈ (v.change d).versions ↔ d' ∈ v.versions ∨ d' = d := by
  simp [change, versions, or_assoc]

@[simp] theorem current_append (bytes : List β) : (v.append file bytes).current = v.current := rfl
@[simp] theorem versions_append (bytes : List β) : (v.append file bytes).versions = v.versions := rfl
@[simp] theorem current_sync : (v.sync file).current = v.current := rfl
@[simp] theorem versions_sync : (v.sync file).versions = v.versions := rfl
@[simp] theorem current_syncDir : v.syncDir.current = v.current := rfl

theorem mem_versions_syncDir : d ∈ v.syncDir.versions ↔ d = v.current := by simp [syncDir, versions]

theorem powerFailure_mem (version : Nat) (torn : Nat → List β) :
    (v.powerFailure version torn).current ∈ v.versions := by
  show v.versions.getD version v.current ∈ v.versions
  rw [List.getD_eq_getElem?_getD]
  cases h : v.versions[version]? with
  | none => exact v.current_mem
  | some d => exact List.mem_of_getElem? h

theorem mem_versions_powerFailure {version : Nat} {torn : Nat → List β} :
    d ∈ (v.powerFailure version torn).versions ↔ d = (v.powerFailure version torn).current := by
  simp [powerFailure, versions, current]

section Names

variable [DecidableEq κ]

/-- The name leads to the file that was opened, and nothing else changes. -/
@[simp] theorem current_create (v : Volume κ β) (name : κ) :
    (v.create name).current = Function.update v.current name (some (v.opened name)) := by
  unfold create opened
  cases h : v.current name with
  | none => simp [change, current]
  | some file =>
    show v.current = Function.update v.current name (some file)
    rw [← h, Function.update_eq_self]

theorem mem_versions_create : d ∈ (v.create name).versions ↔ d ∈ v.versions ∨ d = (v.create name).current := by
  rw [current_create]
  unfold create opened
  cases h : v.current name with
  | none => simp [change, versions, or_assoc]
  | some file =>
    have hcurrent : Function.update v.current name (some file) = v.current := by rw [← h, Function.update_eq_self]
    refine ⟨.inl, fun hd => hd.elim id fun heq => ?_⟩
    rw [heq, Option.getD_some, hcurrent]
    exact v.current_mem

@[simp] theorem data_create : (v.create name).data = Function.update v.data (v.opened name) [] := by
  unfold create
  cases v.current name <;> rfl

@[simp] theorem synced_create : (v.create name).synced = Function.update v.synced (v.opened name) false := by
  unfold create
  cases v.current name <;> rfl

theorem le_nextInode_create : v.nextInode ≤ (v.create name).nextInode := by
  unfold create
  cases v.current name with
  | none => exact Nat.le_succ _
  | some _ => exact Nat.le_refl _

/-- What is opened was there, or is new. -/
theorem opened_lt (h : ∀ file, v.current name = some file → file < v.nextInode) :
    v.opened name < (v.create name).nextInode := by
  unfold create opened
  cases hname : v.current name with
  | none => exact Nat.lt_succ_self _
  | some file => exact h file hname

/-- What a rename does. -/
structure Renamed (v : Volume κ β) (a b : κ) (file : Nat) (w : Volume κ β) : Prop where
  source : v.current a = some file
  data : w.data = v.data
  synced : w.synced = v.synced
  nextInode : w.nextInode = v.nextInode
  versions : ∀ d ∈ w.versions, d ∈ v.versions ∨ d = w.current
  current : ∀ name, w.current name = if name = b then some file else if name = a then none else v.current name

theorem renamed {a b : κ} (h : v.rename a b = some w) : ∃ file, Renamed v a b file w := by
  obtain ⟨file, hfile, rfl⟩ := Option.map_eq_some_iff.1 h
  refine ⟨file, hfile, rfl, rfl, rfl, fun d hd => ?_, fun name => ?_⟩
  · rw [current_change]
    exact mem_versions_change.1 hd
  · rw [current_change]
    by_cases hb : name = b
    · rw [hb, Function.update_self, if_pos rfl]
    · rw [Function.update_of_ne hb, if_neg hb]
      by_cases ha : name = a
      · rw [ha, Function.update_self, if_pos rfl]
      · rw [Function.update_of_ne ha, if_neg ha]

end Names

end Volume

end Luchta.Framework
