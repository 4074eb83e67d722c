import Mathlib.Data.List.Basic
import Mathlib.Logic.Function.Basic

/-!
# A directory on a disk that may lose power

What a program reads back and what a power loss leaves are two things.  A file's data is safe
once the file has been synced, and a change of the directory once the directory has.  Until
then the old and the new state may both be found.

`Disk` keeps the files by number, as the system does, so that a name can be moved to another
file and a file can be emptied through one of its names.  `read` is what the running program
sees.  `Survives` is what may be found under a name after a power loss: the entry of the
current directory or of an older one that no sync has replaced, with any data at all if the
file was not synced.

The usual way to replace a file is to write another one, sync it, rename it over the first and
sync the directory.  It rests on one condition: the file that is written is not one the
target's name leads to, in the current directory or in one that may come back (`Separate`).
Under it each operation has one rule, which says what becomes of the condition and of the
target's name (`create_rule`, `put_rule`, `rename_rule`, `syncDir_rule`).
-/

namespace HoldTheDonut
namespace Storage

variable {Name Data : Type} [DecidableEq Name]

/-- A file: its data, and whether all of it is safe. -/
structure File (Data : Type) where
  data : Data
  synced : Bool

/-- The files, the directory, and the older directories that may come back. -/
structure Disk (Name Data : Type) where
  files : List (File Data)
  dir : Name → Option ℕ
  older : List (Name → Option ℕ)

namespace Disk

/-- The directories one of which a power loss leaves. -/
def dirs (d : Disk Name Data) : List (Name → Option ℕ) := d.dir :: d.older

/-- What the program reads under a name. -/
def read (d : Disk Name Data) (n : Name) : Option Data :=
  (d.dir n).bind fun i => (d.files[i]?).map File.data

/-- Change a file. -/
def put (d : Disk Name Data) (i : ℕ) (f : File Data) : Disk Name Data :=
  { d with files := d.files.set i f }

/-- Make a new file under a name. -/
def make (d : Disk Name Data) (n : Name) (f : File Data) : Disk Name Data :=
  ⟨d.files ++ [f], Function.update d.dir n (some d.files.length), d.dirs⟩

/-- Open a file for writing: it is emptied if it is there, and made if not. -/
def create (d : Disk Name Data) (n : Name) (empty : Data) : Disk Name Data × ℕ :=
  match d.dir n with
  | some i => (d.put i ⟨empty, false⟩, i)
  | none => (d.make n ⟨empty, false⟩, d.files.length)

def write (d : Disk Name Data) (i : ℕ) (x : Data) : Disk Name Data := d.put i ⟨x, false⟩

def syncFile (d : Disk Name Data) (i : ℕ) : Disk Name Data :=
  match d.files[i]? with
  | some f => d.put i ⟨f.data, true⟩
  | none => d

def rename (d : Disk Name Data) (a b : Name) : Disk Name Data :=
  ⟨d.files, Function.update (Function.update d.dir b (d.dir a)) a none, d.dirs⟩

def syncDir (d : Disk Name Data) : Disk Name Data := { d with older := [] }

/-- **What a power loss may leave under a name.** -/
def Survives (d : Disk Name Data) (n : Name) (r : Option Data) : Prop :=
  ∃ dir ∈ d.dirs,
    (dir n = none ∧ r = none) ∨
    ∃ i f x, dir n = some i ∧ d.files[i]? = some f ∧ r = some x ∧ (f.synced = true → x = f.data)

/-- The file under a name. -/
def Leads (d : Disk Name Data) (n : Name) (i : ℕ) (f : File Data) : Prop :=
  d.dir n = some i ∧ d.files[i]? = some f

/-- The file under `a` exists and is not one that `b` leads to. -/
structure Separate (d : Disk Name Data) (a b : Name) : Prop where
  exists_a : ∀ i, d.dir a = some i → i < d.files.length
  exists_b : ∀ dir ∈ d.dirs, ∀ i, dir b = some i → i < d.files.length
  apart : ∀ i, d.dir a = some i → ∀ dir ∈ d.dirs, dir b ≠ some i

/-- Two disks that cannot be told apart by a name. -/
structure Alike (d d' : Disk Name Data) (b : Name) : Prop where
  read : d'.read b = d.read b
  survives : ∀ r, d'.Survives b r ↔ d.Survives b r

variable {d : Disk Name Data} {i : ℕ} {f : File Data}

omit [DecidableEq Name] in
theorem Leads.read {n : Name} (h : d.Leads n i f) : d.read n = some f.data := by
  rw [Disk.read, h.1, Option.bind_some, h.2]
  rfl

omit [DecidableEq Name] in
/-- The current directory is among those that may be left. -/
theorem Leads.survives {n : Name} (h : d.Leads n i f) : d.Survives n (some f.data) :=
  ⟨d.dir, List.mem_cons_self, Or.inr ⟨i, f, f.data, h.1, h.2, rfl, fun _ => rfl⟩⟩

variable {a b : Name}

omit [DecidableEq Name] in
/-- What the program reads may be left. -/
theorem Separate.survives_read (h : d.Separate a b) : d.Survives b (d.read b) := by
  cases hi : d.dir b with
  | none =>
    refine ⟨d.dir, List.mem_cons_self, Or.inl ⟨hi, ?_⟩⟩
    rw [Disk.read, hi]
    rfl
  | some i =>
    have hlt := h.exists_b d.dir List.mem_cons_self i hi
    have hleads : d.Leads b i (d.files.get ⟨i, hlt⟩) := ⟨hi, List.getElem?_eq_getElem hlt⟩
    rw [hleads.read]
    exact hleads.survives

/-! ## The rules -/

omit [DecidableEq Name] in
/-- A name does not see changes of a file it does not lead to. -/
theorem alike_of_files {d' : Disk Name Data}
    (hdirs : ∀ e : Name → Option ℕ, (∃ dir ∈ d'.dirs, dir b = e b) ↔ ∃ dir ∈ d.dirs, dir b = e b)
    (hdir : d'.dir b = d.dir b)
    (hfiles : ∀ dir ∈ d.dirs, ∀ i, dir b = some i → d'.files[i]? = d.files[i]?) : Alike d d' b := by
  constructor
  · rw [Disk.read, Disk.read, hdir]
    cases hi : d.dir b with
    | none => rfl
    | some i => rw [Option.bind_some, Option.bind_some, hfiles d.dir List.mem_cons_self i hi]
  · intro r
    constructor
    · rintro ⟨dir, hmem, hdir'⟩
      obtain ⟨dir', hmem', heq⟩ := (hdirs dir).mp ⟨dir, hmem, rfl⟩
      refine ⟨dir', hmem', ?_⟩
      rw [heq]
      rcases hdir' with h | ⟨i, f, x, hi, hf, hx⟩
      · exact Or.inl h
      · rw [hfiles dir' hmem' i (heq.trans hi)] at hf
        exact Or.inr ⟨i, f, x, hi, hf, hx⟩
    · rintro ⟨dir, hmem, hdir'⟩
      obtain ⟨dir', hmem', heq⟩ := (hdirs dir).mpr ⟨dir, hmem, rfl⟩
      refine ⟨dir', hmem', ?_⟩
      rw [heq]
      rcases hdir' with h | ⟨i, f, x, hi, hf, hx⟩
      · exact Or.inl h
      · rw [← hfiles dir hmem i hi] at hf
        exact Or.inr ⟨i, f, x, hi, hf, hx⟩

omit [DecidableEq Name] in
/-- **The open file is written or synced.** -/
theorem put_rule (h : d.Separate a b) (ha : d.Leads a i f) (g : File Data) :
    (d.put i g).Separate a b ∧ (d.put i g).Leads a i g ∧ Alike d (d.put i g) b := by
  have hlen : (d.put i g).files.length = d.files.length := List.length_set
  refine ⟨⟨?_, ?_, h.apart⟩, ⟨ha.1, ?_⟩, ?_⟩
  · rw [hlen]
    exact h.exists_a
  · rw [hlen]
    exact h.exists_b
  · show (d.files.set i g)[i]? = some g
    rw [List.getElem?_set_self (h.exists_a i ha.1)]
  · refine alike_of_files (fun _ => Iff.rfl) rfl fun dir hdir j hj => ?_
    show (d.files.set i g)[j]? = d.files[j]?
    have hne : i ≠ j := by
      rintro rfl
      exact h.apart i ha.1 dir hdir hj
    rw [List.getElem?_set_ne hne]

omit [DecidableEq Name] in
theorem syncFile_of_leads (ha : d.Leads a i f) : d.syncFile i = d.put i ⟨f.data, true⟩ := by
  rw [syncFile, ha.2]

/-- A new file: the new directory has the old one's entry for the target. -/
theorem make_rule (h : d.Separate a b) (hne : a ≠ b) (f : File Data) :
    (d.make a f).Separate a b ∧ (d.make a f).Leads a d.files.length f ∧
      Alike d (d.make a f) b := by
  have ha : (d.make a f).dir a = some d.files.length := Function.update_self _ _ _
  have hb : (d.make a f).dir b = d.dir b := Function.update_of_ne hne.symm _ _
  have hlen : (d.make a f).files.length = d.files.length + 1 := List.length_append
  have hdirs : ∀ dir ∈ (d.make a f).dirs, ∃ dir' ∈ d.dirs, dir b = dir' b := by
    intro dir hdir
    rcases List.mem_cons.mp hdir with rfl | hdir
    · exact ⟨d.dir, List.mem_cons_self, hb⟩
    · exact ⟨dir, hdir, rfl⟩
  refine ⟨⟨?_, ?_, ?_⟩, ⟨ha, ?_⟩, ?_⟩
  · intro i hi
    rw [ha] at hi
    rw [hlen, ← Option.some.inj hi]
    exact Nat.lt_succ_self _
  · intro dir hdir i hi
    obtain ⟨dir', hdir', heq⟩ := hdirs dir hdir
    rw [hlen]
    exact Nat.lt_succ_of_lt (h.exists_b dir' hdir' i (heq.symm.trans hi))
  · intro i hi dir hdir hbi
    obtain ⟨dir', hdir', heq⟩ := hdirs dir hdir
    rw [ha] at hi
    have hlt := h.exists_b dir' hdir' i (heq.symm.trans hbi)
    rw [← Option.some.inj hi] at hlt
    exact Nat.lt_irrefl _ hlt
  · show (d.files ++ [f])[d.files.length]? = some f
    rw [List.getElem?_append_right (Nat.le_refl _), Nat.sub_self]
    rfl
  · refine alike_of_files (fun e => ⟨?_, ?_⟩) hb fun dir hdir i hi => ?_
    · rintro ⟨dir, hdir, he⟩
      obtain ⟨dir', hdir', heq⟩ := hdirs dir hdir
      exact ⟨dir', hdir', heq.symm.trans he⟩
    · rintro ⟨dir, hdir, he⟩
      exact ⟨dir, List.mem_cons_of_mem _ hdir, he⟩
    · exact List.getElem?_append_left (h.exists_b dir hdir i hi)

/-- **A file is opened for writing.** -/
theorem create_rule (h : d.Separate a b) (hne : a ≠ b) (empty : Data) :
    (d.create a empty).1.Separate a b ∧
      (d.create a empty).1.Leads a (d.create a empty).2 ⟨empty, false⟩ ∧
      Alike d (d.create a empty).1 b := by
  unfold create
  cases ha : d.dir a with
  | some i =>
    have hlt := h.exists_a i ha
    exact put_rule h ⟨ha, List.getElem?_eq_getElem hlt⟩ ⟨empty, false⟩
  | none => exact make_rule h hne ⟨empty, false⟩

/-- **A synced file is renamed over the target**: the program reads the new data, and a power
loss leaves what it could leave before, or the new data. -/
theorem rename_rule (h : d.Separate a b) (hne : a ≠ b) {x : Data} (ha : d.Leads a i ⟨x, true⟩) :
    (d.rename a b).Separate a b ∧ (d.rename a b).Leads b i ⟨x, true⟩ ∧
      ∀ r, (d.rename a b).Survives b r ↔ d.Survives b r ∨ r = some x := by
  have hb : (d.rename a b).dir b = some i := by
    show Function.update (Function.update d.dir b (d.dir a)) a none b = some i
    rw [Function.update_of_ne hne.symm, Function.update_self]
    exact ha.1
  have ha' : (d.rename a b).dir a = none := Function.update_self _ _ _
  have hleads : (d.rename a b).Leads b i ⟨x, true⟩ := ⟨hb, ha.2⟩
  refine ⟨⟨?_, ?_, ?_⟩, hleads, fun r => ⟨?_, ?_⟩⟩
  · intro j hj
    rw [ha'] at hj
    cases hj
  · intro dir hdir j hj
    rcases List.mem_cons.mp hdir with rfl | hdir
    · rw [hb] at hj
      rw [← Option.some.inj hj]
      exact h.exists_a i ha.1
    · exact h.exists_b dir hdir j hj
  · intro j hj
    rw [ha'] at hj
    cases hj
  · rintro ⟨dir, hdir, hr⟩
    rcases List.mem_cons.mp hdir with rfl | hdir
    · rcases hr with ⟨hnone, -⟩ | ⟨j, f, y, hj, hf, rfl, hy⟩
      · rw [hb] at hnone
        cases hnone
      · rw [hb] at hj
        cases hj
        rw [hleads.2] at hf
        cases hf
        exact Or.inr (congrArg some (hy rfl))
    · exact Or.inl ⟨dir, hdir, hr⟩
  · rintro (⟨dir, hdir, hr⟩ | rfl)
    · exact ⟨dir, List.mem_cons_of_mem _ hdir, hr⟩
    · exact hleads.survives

omit [DecidableEq Name] in
/-- **The directory is synced**: what the program reads is what a power loss leaves. -/
theorem syncDir_rule (h : d.Separate a b) {x : Data} (hb : d.Leads b i ⟨x, true⟩) :
    d.syncDir.Separate a b ∧ d.syncDir.Leads b i ⟨x, true⟩ ∧
      ∀ r, d.syncDir.Survives b r ↔ r = some x := by
  have hdirs : ∀ dir ∈ d.syncDir.dirs, dir ∈ d.dirs := by
    intro dir hdir
    rw [List.mem_singleton.mp hdir]
    exact List.mem_cons_self
  have hleads : d.syncDir.Leads b i ⟨x, true⟩ := hb
  refine ⟨⟨h.exists_a, fun dir hdir => h.exists_b dir (hdirs dir hdir),
    fun j hj dir hdir => h.apart j hj dir (hdirs dir hdir)⟩, hleads, fun r => ⟨?_, ?_⟩⟩
  · rintro ⟨dir, hdir, hr⟩
    rw [List.mem_singleton.mp hdir] at hr
    rcases hr with ⟨hnone, -⟩ | ⟨j, f, y, hj, hf, rfl, hy⟩
    · rw [hleads.1] at hnone
      cases hnone
    · rw [hleads.1] at hj
      cases hj
      rw [hleads.2] at hf
      cases hf
      exact congrArg some (hy rfl)
  · rintro rfl
    exact hleads.survives

end Disk

end Storage
end HoldTheDonut
