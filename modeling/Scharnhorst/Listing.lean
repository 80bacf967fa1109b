/-
The snapshot files of a directory, as the listing finds them.

A file counts as a snapshot by its name alone. On a directory where every snapshot file
has the name that its generation is written under, the listing and the paths agree: the
generations are strictly increasing, and each is there exactly when its path is.
-/
import Mathlib.Data.List.Nodup
import Scharnhorst.Apply
import Scharnhorst.Files
import Scharnhorst.Managers
import Scharnhorst.Newest

set_option autoImplicit false

namespace Scharnhorst

open Attempt Newest Std

/-! ## Names -/

/-- The digits of a `u64` are read back. -/
theorem parse_u64_toString {n : Nat} (hn : n ≤ u64_MAX) : parse_u64 (toString n) = some n := by
  have hdigits : (toString n).toList = Nat.toDigits 10 n := by
    simp [toString]
  have hall : ∀ c ∈ Nat.toDigits 10 n, c.isDigit = true := fun c hc =>
    Nat.isDigit_of_mem_toDigits (by decide) (by decide) hc
  -- a digit is no sign
  have hsign : (Nat.toDigits 10 n).head? ≠ some '+' := by
    intro hhead
    exact absurd (hall '+' (List.mem_of_mem_head? hhead)) (by decide)
  have hvalue := Nat.ofDigitChars_ten_toDigits (n := n)
  rw [Nat.ofDigitChars_eq_foldl] at hvalue
  simp only [parse_u64, hdigits, if_neg hsign, hvalue, if_pos hn]
  rw [if_pos ⟨Nat.toDigits_ne_nil, List.all_eq_true.2 hall⟩]

theorem parse_u64_le {s : String} {n : Nat} (h : parse_u64 s = some n) : n ≤ u64_MAX := by
  simp only [parse_u64, Option.ite_none_right_eq_some, Option.some.injEq] at h
  obtain ⟨-, hle, rfl⟩ := h
  exact hle

theorem strip_prefix_append (front rest : String) :
    strip_prefix (front ++ rest) front = some rest := by
  have hfront : front.toList.isPrefixOf (front ++ rest).toList = true := by
    rw [String.toList_append]
    exact List.isPrefixOf_iff_prefix.2 (List.prefix_append _ _)
  unfold strip_prefix
  rw [if_pos hfront, String.toList_append, ← String.length_toList, List.drop_left,
    String.ofList_toList]

theorem strip_prefix_eq {name front rest : String} (h : strip_prefix name front = some rest) :
    name = front ++ rest := by
  unfold strip_prefix at h
  split at h
  · rename_i hfront
    obtain ⟨more, hmore⟩ := List.isPrefixOf_iff_prefix.1 hfront
    rw [← hmore, ← String.length_toList, List.drop_left] at h
    apply String.toList_inj.1
    rw [← Option.some.inj h, String.toList_append, String.toList_ofList, hmore]
  · cases h

theorem strip_suffix_append (rest ending : String) :
    strip_suffix (rest ++ ending) ending = some rest := by
  have hending : ending.toList.isSuffixOf (rest ++ ending).toList = true := by
    rw [String.toList_append]
    exact List.isSuffixOf_iff_suffix.2 (List.suffix_append _ _)
  rw [strip_suffix, if_pos hending, String.toList_append, String.length_append, Nat.add_sub_cancel,
    ← String.length_toList, List.take_left, String.ofList_toList]

/-- The name of a snapshot file, and what it stands for. -/
def snapshot_name (generation : Tick) : String := "snapshot_gen_" ++ toString generation ++ ".arrow"

theorem snapshot_generation_name {generation : Tick} (h : generation ≤ u64_MAX) :
    snapshot_generation (snapshot_name generation) = some generation := by
  simp only [snapshot_generation, snapshot_name, String.append_assoc, strip_prefix_append,
    Option.bind_eq_bind, Option.bind_some, strip_suffix_append, parse_u64_toString h]

theorem snapshot_generation_le {name : String} {generation : Tick}
    (h : snapshot_generation name = some generation) : generation ≤ u64_MAX := by
  simp only [snapshot_generation, Option.bind_eq_bind, Option.bind_eq_some_iff] at h
  obtain ⟨rest, -, num, -, hnum⟩ := h
  exact parse_u64_le hnum

namespace Files

theorem name_in_append {dir name : String} (h : '/' ∉ name.toList) :
    name_in dir (dir ++ "/" ++ name) = some name := by
  simp [name_in, strip_prefix_append, h]

theorem name_in_eq {dir path name : String} (h : name_in dir path = some name) :
    path = dir ++ "/" ++ name := by
  obtain ⟨hstripped, -⟩ := Option.filter_eq_some_iff.1 h
  exact strip_prefix_eq hstripped

end Files

theorem slash_not_mem_snapshot_name (generation : Tick) :
    '/' ∉ (snapshot_name generation).toList := by
  have hdigits : (toString generation).toList = Nat.toDigits 10 generation := by
    simp [toString]
  intro hmem
  simp only [snapshot_name, String.toList_append, hdigits, List.mem_append] at hmem
  rcases hmem with (hfront | hdigit) | hending
  · exact absurd hfront (by decide)
  · exact absurd (Nat.isDigit_of_mem_toDigits (by decide) (by decide) hdigit) (by decide)
  · exact absurd hending (by decide)

/-! ## The listing -/

namespace SnapshotPersistence

variable (p : SnapshotPersistence)

theorem snapshot_path_eq (generation : Tick) :
    p.snapshot_path generation = p.base_dir ++ "/" ++ snapshot_name generation := by
  apply String.toList_inj.1
  simp [snapshot_path, snapshot_name, toString]

/-- The path of `temp_snapshot_path`. -/
def temp_path (generation : Tick) : String :=
  s!"{p.base_dir}/.tmp_snapshot_gen_{generation}.arrow"

theorem temp_path_eq (generation : Tick) :
    p.temp_path generation
      = p.base_dir ++ "/" ++ (".tmp_snapshot_gen_" ++ toString generation ++ ".arrow") := by
  apply String.toList_inj.1
  simp [temp_path, toString]

/-- The generation that a file counts as, if it is a snapshot. -/
def path_generation (path : String) : Option Tick :=
  (Files.name_in p.base_dir path).bind snapshot_generation

/-- The generations on disk, from the oldest on. -/
def generations (fs : Files) : List Tick :=
  (fs.files.keys.filterMap p.path_generation).insertionSort (· ≤ ·)

/-- Every snapshot file has the name that its generation is written under. -/
def Canonical (fs : Files) : Prop :=
  ∀ path ∈ fs.files, ∀ generation, p.path_generation path = some generation →
    path = p.snapshot_path generation

variable {p} {fs : Files}

theorem path_generation_path {generation : Tick} (h : generation ≤ u64_MAX) :
    p.path_generation (p.snapshot_path generation) = some generation := by
  rw [path_generation, snapshot_path_eq,
    Files.name_in_append (slash_not_mem_snapshot_name generation)]
  exact snapshot_generation_name h

theorem path_generation_le {path : String} {generation : Tick}
    (h : p.path_generation path = some generation) : generation ≤ u64_MAX := by
  obtain ⟨name, -, hname⟩ := Option.bind_eq_some_iff.1 h
  exact snapshot_generation_le hname

theorem mem_generations (hcanon : p.Canonical fs) {generation : Tick} :
    generation ∈ p.generations fs
      ↔ generation ≤ u64_MAX ∧ p.snapshot_path generation ∈ fs.files := by
  rw [generations, List.mem_insertionSort, List.mem_filterMap]
  constructor
  · rintro ⟨path, hpath, hgeneration⟩
    have hmem := ExtTreeMap.mem_keys.1 hpath
    rw [← hcanon path hmem generation hgeneration]
    exact ⟨path_generation_le hgeneration, hmem⟩
  · rintro ⟨hle, hmem⟩
    exact ⟨_, ExtTreeMap.mem_keys.2 hmem, path_generation_path hle⟩

theorem sortedLT_generations (hcanon : p.Canonical fs) : (p.generations fs).SortedLT := by
  refine List.sortedLE_insertionSort.sortedLT_of_nodup ?_
  rw [(List.perm_insertionSort _ _).nodup_iff, List.Nodup, List.pairwise_filterMap]
  refine ExtTreeMap.nodup_keys.imp_of_mem ?_
  -- two files of one generation have one name
  rintro path path' hpath hpath' hne generation hg generation' hg' rfl
  refine hne ?_
  rw [hcanon path (ExtTreeMap.mem_keys.1 hpath) _ hg,
    hcanon path' (ExtTreeMap.mem_keys.1 hpath') _ hg']

theorem list_snapshots_eq (hcanon : p.Canonical fs) (hdir : p.base_dir ∈ fs.dirs) :
    p.list_snapshots fs
      = .ok ((p.generations fs).map fun generation => (generation, p.snapshot_path generation)) := by
  have hread : SaveDisk.read_dir fs p.base_dir
      = .ok ((fs.files.keys.filterMap (Files.name_in p.base_dir)).map .ok) := by
    simp [SaveDisk.read_dir, hdir]
  have hfound : ((fs.files.keys.filterMap (Files.name_in p.base_dir)).map
        (Except.ok : String → Except String String)).filterMap
        (fun entry => entry.toOption.bind fun file_name =>
          (snapshot_generation file_name).map fun tick => (tick, s!"{p.base_dir}/{file_name}"))
      = (fs.files.keys.filterMap p.path_generation).map
        fun generation => (generation, p.snapshot_path generation) := by
    rw [List.filterMap_map, List.filterMap_filterMap, List.map_filterMap]
    refine List.filterMap_congr fun path hpath => ?_
    rcases hname : Files.name_in p.base_dir path with _ | name
    · simp [path_generation, hname]
    rcases hgeneration : snapshot_generation name with _ | generation
    · simp [path_generation, hname, hgeneration, Except.toOption]
    · have hpath' : p.base_dir ++ "/" ++ name = p.snapshot_path generation := by
        rw [← Files.name_in_eq hname]
        refine hcanon path (ExtTreeMap.mem_keys.1 hpath) generation ?_
        rw [path_generation, hname, Option.bind_some, hgeneration]
      simp [path_generation, hname, hgeneration, toString, ← hpath', Except.toOption]
  simp only [list_snapshots, hread, hfound, generations]
  rw [List.map_insertionSort (r := (· ≤ ·)) (s := fun a b => a.1 ≤ b.1)
    (fun generation => (generation, p.snapshot_path generation)) _ (fun a _ b _ => Iff.rfl)]

theorem snapshot_path_injective {a b : Tick} (ha : a ≤ u64_MAX) (hb : b ≤ u64_MAX)
    (h : p.snapshot_path a = p.snapshot_path b) : a = b := by
  have hread := path_generation_path (p := p) ha
  rw [h, path_generation_path hb] at hread
  exact (Option.some.inj hread).symm

/-- A temporary file is no snapshot. -/
theorem path_generation_temp (generation : Tick) :
    p.path_generation (p.temp_path generation) = none := by
  have htemp := p.temp_path_eq generation
  rcases hname : Files.name_in p.base_dir (p.temp_path generation) with _ | name
  · rw [path_generation, hname, Option.bind_none]
  rcases hfound : snapshot_generation name with _ | found
  · rw [path_generation, hname, Option.bind_some, hfound]
  -- a snapshot's name starts with another letter
  simp only [snapshot_generation, Option.bind_eq_bind, Option.bind_eq_some_iff] at hfound
  obtain ⟨rest, hrest, -⟩ := hfound
  have heq := htemp.symm.trans (Files.name_in_eq hname)
  rw [strip_prefix_eq hrest] at heq
  have hlists := congrArg String.toList heq
  simp at hlists

theorem snapshot_path_ne_temp {a b : Tick} (ha : a ≤ u64_MAX) :
    p.snapshot_path a ≠ p.temp_path b := by
  intro hsame
  have htemp := path_generation_temp (p := p) b
  rw [← hsame, path_generation_path ha] at htemp
  cases htemp

/-- No file of the directory has the directory's own path. -/
theorem ne_base_dir {path rest : String} (h : path = p.base_dir ++ "/" ++ rest) :
    path ≠ p.base_dir := by
  intro hsame
  have hlength := congrArg String.length (hsame.symm.trans h)
  simp only [String.length_append] at hlength
  have hslash : "/".length = 1 := rfl
  omega

theorem base_dir_ne_snapshot (generation : Tick) : p.snapshot_path generation ≠ p.base_dir :=
  ne_base_dir (p.snapshot_path_eq generation)

theorem base_dir_ne_temp (generation : Tick) : p.temp_path generation ≠ p.base_dir :=
  ne_base_dir (p.temp_path_eq generation)

/-! Names depend on the directory alone. -/

section Names

variable {p' : SnapshotPersistence} (h : p'.base_dir = p.base_dir)

include h

theorem snapshot_path_congr : p'.snapshot_path = p.snapshot_path := by
  funext generation
  simp only [snapshot_path, h]

theorem temp_path_congr : p'.temp_path = p.temp_path := by
  funext generation
  simp only [temp_path, h]

theorem path_generation_congr : p'.path_generation = p.path_generation := by
  funext path
  simp only [path_generation, h]

theorem generations_congr : p'.generations fs = p.generations fs := by
  rw [generations, path_generation_congr h, generations]

theorem canonical_congr : p'.Canonical fs ↔ p.Canonical fs := by
  rw [Canonical, path_generation_congr h, snapshot_path_congr h, Canonical]

end Names

end SnapshotPersistence

end Scharnhorst
