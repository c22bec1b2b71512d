import Mathlib.Data.List.Infix
import Mathlib.Data.List.Nodup
import Mathlib.Data.List.Pairwise
import ShadowMsm.Host.KitTree

/-!
# The kit and its manifest

What `build_linux_shell_iso_kit.py` writes and what `k3765_linux_shell.py` verifies are the same list of files: the
manifest of a kit is accepted with exactly the files that are not named `SHA256SUMS`, a file that is changed or missing is
found, and a staging into an empty directory of the session gives a kit of which the same holds (`kit_manifest_agrees`).
-/

namespace ShadowMsm.Host

open PurePath

section

variable {w : Flavour} {host : KitHost} {files : Files} {disk : Disk} {root : PurePath} {data : Bytes}
  {file : List (List Char) × Bytes}

/-- The paths that are returned for the files of a kit. -/
def kitEntries (w : Flavour) (files : Files) : List PurePath := (listedFiles w files).map fun file => relativePath file.1

/-- A line is accepted where its file has the contents of which it has the digest, and nowhere else. -/
theorem Shippable.verifyLine_checksumLine (h : Shippable w host.flavour host.sha256 files)
    (hfile : file ∈ listedFiles w files) {number : Nat} {e : PurePath} :
    verifyLine host disk root number (checksumLine w host.sha256 file) = .ok e ↔ e = relativePath file.1 ∧
      ∃ data, disk.file host.flavour (div host.flavour root (relativePath file.1)) = some data ∧
        host.sha256 data = host.sha256 file.2 := by
  obtain ⟨text, hsplit, hparse⟩ := h.splitDouble_checksumLine hfile
  rw [verifyLine_eq_ok]
  constructor
  · rintro ⟨expected, text', data, hsplit', -, rfl, -, -, hdata, hsha⟩
    rw [hsplit] at hsplit'
    cases hsplit'
    rw [hparse] at hdata ⊢
    exact ⟨rfl, data, hdata, hsha⟩
  · rintro ⟨rfl, data, hdata, hsha⟩
    refine ⟨_, text, data, hsplit, h.digest file.2, hparse.symm, ?_, ?_, hdata, hsha⟩
    · cases host.flavour with
      | posix => rfl
      | windows => rfl
    · intro hdots
      exact ((h.started.ne_nil_of_listed hfile).2 _ hdots).ne_dots rfl

theorem Shippable.checksumLine_ne_nil (h : Shippable w host.flavour host.sha256 files) (hfile : file ∈ listedFiles w files) :
    checksumLine w host.sha256 file ≠ [] := by
  intro hnil
  obtain ⟨text, hsplit, -⟩ := h.splitDouble_checksumLine hfile
  rw [hnil] at hsplit
  cases hsplit

theorem Shippable.verifyLines_checksumLines (h : Shippable w host.flavour host.sha256 files) {l : Files}
    (hl : ∀ file ∈ l, file ∈ listedFiles w files)
    (hdisk : ∀ file ∈ l, disk.file host.flavour (div host.flavour root (relativePath file.1)) = some file.2) (number : Nat) :
    verifyLines host disk root number (l.map (checksumLine w host.sha256)) = .ok (l.map fun file => relativePath file.1) := by
  induction l generalizing number with
  | nil => rfl
  | cons file l ih =>
    have hfile := hl file List.mem_cons_self
    have hline : verifyLine host disk root number (checksumLine w host.sha256 file) = .ok (relativePath file.1) :=
      (h.verifyLine_checksumLine hfile).mpr ⟨rfl, file.2, hdisk file List.mem_cons_self, rfl⟩
    have ih := ih (fun y hy => hl y (List.mem_cons_of_mem _ hy)) (fun y hy => hdisk y (List.mem_cons_of_mem _ hy)) (number + 1)
    rw [List.map_cons, verifyLines, if_neg (h.checksumLine_ne_nil hfile), bind_of_ok hline, bind_of_ok ih]
    rfl

/-- The manifest of a kit is accepted. -/
theorem Shippable.verifyManifest_eq (h : Shippable w host.flavour host.sha256 files)
    (hdata : checksumFile w host.sha256 files = .ok data)
    (hmanifest : disk.file host.flavour (divText host.flavour root manifestName) = some data)
    (hdisk : ∀ file ∈ listedFiles w files,
      disk.file host.flavour (div host.flavour root (relativePath file.1)) = some file.2) :
    verifyManifest host disk root =
      .ok (divText host.flavour root manifestName, kitEntries w files, host.sha256 data) := by
  obtain ⟨data', text, hdata', hread, hlines⟩ := h.readText_checksumFile
  cases hdata.symm.trans hdata'
  refine verifyManifest_eq_ok.mpr ⟨data, text, hmanifest, hread, ?_, ?_, rfl, rfl⟩
  · rw [hlines]
    exact h.verifyLines_checksumLines (fun _ hfile => hfile) hdisk 1
  · obtain ⟨file, hfile, hname⟩ := h.listed
    have := List.mem_map_of_mem (f := fun file => relativePath file.1) (mem_listedFiles (w := w).mpr ⟨hfile, hname⟩)
    exact List.ne_nil_of_mem this

/-- A listed file with other contents, or without any, is found. -/
theorem Shippable.verifyManifest_changed (h : Shippable w host.flavour host.sha256 files)
    (hdata : checksumFile w host.sha256 files = .ok data)
    (hmanifest : disk.file host.flavour (divText host.flavour root manifestName) = some data)
    (hfile : file ∈ listedFiles w files)
    (hchanged : ∀ data, disk.file host.flavour (div host.flavour root (relativePath file.1)) = some data →
      host.sha256 data ≠ host.sha256 file.2) :
    ∃ err, verifyManifest host disk root = .error err := by
  rcases hverify : verifyManifest host disk root with err | ⟨manifest, entries, digest⟩
  · exact ⟨err, rfl⟩
  obtain ⟨data', text, hfound, hread, hlines, -⟩ := verifyManifest_eq_ok.mp hverify
  obtain ⟨data'', text', hdata', hread', hsplit⟩ := h.readText_checksumFile
  cases hdata.symm.trans hdata'
  cases hmanifest.symm.trans hfound
  cases hread.symm.trans hread'
  rw [hsplit] at hlines
  obtain ⟨number, e, hline⟩ := (verifyLines_eq_ok hlines).2.2 _ (List.mem_map_of_mem hfile) (h.checksumLine_ne_nil hfile)
  obtain ⟨-, data', hdata', hsha⟩ := (h.verifyLine_checksumLine hfile).mp hline
  exact absurd hsha (hchanged data' hdata')

end

/-! ### Staging -/

/-- A disk in the course of a staging under `base`, from a disk `start`: the directories up to `base ++ made` are made, and
the files below `base` are those of `done`. -/
structure Staged (f : Flavour) (base : List (List Char)) (start : Disk) (made : List (List Char)) (done : Files)
    (disk : Disk) : Prop where
  path : ∀ key ≠ [], key <+: base → ∀ data, disk key ≠ some (.file data)
  outside : ∀ key, (∀ k ≠ [], key ≠ base ++ k) → ∀ data, disk key = some (.file data) ↔ start key = some (.file data)
  file : ∀ k ≠ [], ∀ data, disk (base ++ k) = some (.file data) ↔ ∃ x ∈ done, x.1.map f.casefold = k ∧ x.2 = data
  directory : ∀ k ≠ [], disk (base ++ k) = some .directory → k <+: made ∨ ∃ x ∈ done, k <+: x.1.map f.casefold

section

variable {f : Flavour} {base made : List (List Char)} {start disk : Disk} {done : Files} {source target path : PurePath}
  {data : Bytes}

theorem Disk.file_eq_some : disk.file f path = some data ↔ disk (path.cparts f) = some (.file data) := by
  unfold Disk.file
  rcases disk (path.cparts f) with _ | _ | _
  · simp
  · simp
  · simp

theorem mkdir_ok (h : ∀ key ≠ [], key <+: path.cparts f → ∀ data, disk key ≠ some (.file data)) : mkdir f path disk =
    (.ok (), fun key => if key ≠ [] ∧ key <+: path.cparts f then some .directory else disk key, []) := by
  unfold mkdir
  dsimp only
  rw [if_neg]
  intro hany
  obtain ⟨key, hkey, hfile⟩ := List.any_eq_true.mp hany
  split at hfile
  · rename_i data hdisk
    exact h key (of_decide_eq_true hfile) ((List.mem_inits _ _).mp hkey) data hdisk
  · cases hfile

theorem copyfile_ok (hsource : disk (source.cparts f) = some (.file data)) (hne : source.cparts f ≠ target.cparts f)
    (htarget : disk (target.cparts f) ≠ some .directory) : copyfile f source target disk =
      (.ok (), Function.update disk (target.cparts f) (some (.file data)), [.copied source target]) := by
  unfold copyfile
  rw [Disk.file_eq_some.mpr hsource]
  dsimp only
  rw [if_neg (not_or.mpr ⟨hne, htarget⟩)]

private theorem prefix_append_cases {key a b : List (List Char)} (h : key <+: a ++ b) :
    key <+: a ∨ ∃ t, t ≠ [] ∧ key = a ++ t ∧ t <+: b := by
  by_cases hlength : key.length ≤ a.length
  · exact .inl (List.prefix_of_prefix_length_le h (List.prefix_append a b) hlength)
  · obtain ⟨t, rfl⟩ := List.prefix_of_prefix_length_le (List.prefix_append a b) h (by omega)
    refine .inr ⟨t, ?_, rfl, (List.prefix_append_right_inj a).mp h⟩
    rintro rfl
    simp at hlength

/-- A directory is made where no file is on the way. -/
theorem Staged.mkdir {k : List (List Char)} (h : Staged f base start [] done disk) (hpath : path.cparts f = base ++ k)
    (hfree : ∀ x ∈ done, ¬ x.1.map f.casefold <+: k) :
    ∃ disk', ShadowMsm.Host.mkdir f path disk = (.ok (), disk', []) ∧ Staged f base start k done disk' := by
  have hnofile : ∀ key ≠ [], key <+: base ++ k → ∀ data, disk key ≠ some (.file data) := by
    intro key hkey hk data hfile
    rcases prefix_append_cases hk with hbase | ⟨t, ht, rfl, hbelow⟩
    · exact h.path key hkey hbase data hfile
    · obtain ⟨x, hx, rfl, -⟩ := (h.file t ht data).mp hfile
      exact hfree x hx hbelow
  refine ⟨_, mkdir_ok (hpath ▸ hnofile), ?_, ?_, ?_, ?_⟩
  · intro key hkey hk data
    rw [hpath, if_pos ⟨hkey, hk.trans (List.prefix_append base k)⟩]
    nofun
  · intro key hkey data
    rw [hpath]
    by_cases hmade : key ≠ [] ∧ key <+: base ++ k
    · rw [if_pos hmade, ← h.outside key hkey data]
      have := hnofile key hmade.1 hmade.2 data
      simp [this]
    · rw [if_neg hmade]
      exact h.outside key hkey data
  · intro t ht data
    rw [hpath]
    by_cases hmade : base ++ t ≠ [] ∧ base ++ t <+: base ++ k
    · rw [if_pos hmade, ← h.file t ht data]
      have := hnofile (base ++ t) hmade.1 hmade.2 data
      simp [this]
    · rw [if_neg hmade]
      exact h.file t ht data
  · intro t ht hdir
    rw [hpath] at hdir
    by_cases hmade : base ++ t ≠ [] ∧ base ++ t <+: base ++ k
    · exact .inl ((List.prefix_append_right_inj base).mp hmade.2)
    · rw [if_neg hmade] at hdir
      rcases h.directory t ht hdir with hnil | hdone
      · exact absurd (List.prefix_nil.mp hnil) ht
      · exact .inr hdone

private theorem update_below (disk : Disk) (base key k : List (List Char)) (node : Option Node) :
    Function.update disk (base ++ key) node (base ++ k) = if k = key then node else disk (base ++ k) := by
  by_cases hk : k = key
  · rw [if_pos hk, hk, Function.update_self]
  · have hne : base ++ k ≠ base ++ key := fun heq => hk (List.append_cancel_left heq)
    rw [if_neg hk, Function.update_of_ne hne]

/-- One more file is there. -/
private theorem Staged.insert {x : List (List Char) × Bytes} (h : Staged f base start made done disk)
    (hx : x.1.map f.casefold ≠ []) (hmade : made <+: x.1.map f.casefold)
    (hapart : ∀ y ∈ done, ¬ x.1.map f.casefold <+: y.1.map f.casefold) :
    Staged f base start [] (x :: done) (Function.update disk (base ++ x.1.map f.casefold) (some (.file x.2))) := by
  refine ⟨?_, ?_, ?_, ?_⟩
  · intro key hkey hk data
    have hne : key ≠ base ++ x.1.map f.casefold := by
      rintro rfl
      have := hk.length_le
      have := List.length_pos_iff.mpr hx
      simp only [List.length_append] at *
      omega
    rw [Function.update_of_ne hne]
    exact h.path key hkey hk data
  · intro key hkey data
    rw [Function.update_of_ne (hkey _ hx)]
    exact h.outside key hkey data
  · intro k hk data
    rw [update_below]
    by_cases hkx : k = x.1.map f.casefold
    · rw [if_pos hkx, hkx]
      constructor
      · intro hdata
        exact ⟨x, List.mem_cons_self, rfl, by simpa using hdata⟩
      · rintro ⟨y, hy, hfold, rfl⟩
        rcases List.mem_cons.mp hy with rfl | hy
        · rfl
        · exact absurd (hfold ▸ List.prefix_rfl) (hapart y hy)
    · rw [if_neg hkx, h.file k hk data]
      constructor
      · rintro ⟨y, hy, hfold, hdata⟩
        exact ⟨y, List.mem_cons_of_mem _ hy, hfold, hdata⟩
      · rintro ⟨y, hy, hfold, hdata⟩
        rcases List.mem_cons.mp hy with rfl | hy
        · exact absurd hfold.symm hkx
        · exact ⟨y, hy, hfold, hdata⟩
  · intro k hk hdir
    rw [update_below] at hdir
    refine .inr ?_
    by_cases hkx : k = x.1.map f.casefold
    · exact ⟨x, List.mem_cons_self, hkx ▸ List.prefix_rfl⟩
    · rw [if_neg hkx] at hdir
      rcases h.directory k hk hdir with hk | ⟨y, hy, hk⟩
      · exact ⟨x, List.mem_cons_self, hk.trans hmade⟩
      · exact ⟨y, List.mem_cons_of_mem _ hy, hk⟩

/-- A file is copied to where no directory is. -/
theorem Staged.copyfile {x : List (List Char) × Bytes} (h : Staged f base start made done disk) (hne : x.1 ≠ [])
    (hsource : start (source.cparts f) = some (.file x.2)) (houtside : ∀ k ≠ [], source.cparts f ≠ base ++ k)
    (htarget : target.cparts f = base ++ x.1.map f.casefold) (hmade : made <+: x.1.map f.casefold)
    (hmade' : ¬ x.1.map f.casefold <+: made)
    (hapart : ∀ y ∈ done, ¬ x.1.map f.casefold <+: y.1.map f.casefold) :
    ∃ disk', ShadowMsm.Host.copyfile f source target disk = (.ok (), disk', [.copied source target]) ∧
      Staged f base start [] (x :: done) disk' := by
  have hx : x.1.map f.casefold ≠ [] := by simpa using hne
  have hsource' : disk (source.cparts f) = some (.file x.2) := (h.outside _ houtside x.2).mpr hsource
  have hdir : disk (target.cparts f) ≠ some .directory := by
    rw [htarget]
    intro hdir
    rcases h.directory _ hx hdir with hk | ⟨y, hy, hk⟩
    · exact hmade' hk
    · exact hapart y hy hk
  have hsame : source.cparts f ≠ target.cparts f := htarget ▸ houtside _ hx
  refine ⟨_, copyfile_ok hsource' hsame hdir, ?_⟩
  rw [htarget]
  exact h.insert hx hmade hapart

end

/-! ### The kit -/

/-- Exactly these files are below a directory. -/
def Stored (f : Flavour) (disk : Disk) (base : PurePath) (files : Files) : Prop :=
  ∀ key ≠ [], ∀ data, disk (base.cparts f ++ key) = some (.file data) ↔
    ∃ file ∈ files, file.1.map f.casefold = key ∧ file.2 = data

/-- No file is on the way to a directory, and nothing is below it. -/
structure Fresh (f : Flavour) (disk : Disk) (base : PurePath) : Prop where
  path : ∀ key ≠ [], key <+: base.cparts f → ∀ data, disk key ≠ some (.file data)
  empty : ∀ key ≠ [], disk (base.cparts f ++ key) = none

/-- The files of the kit with its manifest. -/
def kitFiles (files : Files) (data : Bytes) : Files := ([manifestName], data) :: files.filter fun file => file.1 ≠ [manifestName]

/-- The files of a staged kit. -/
def stagedFiles (w : Flavour) (files : Files) (data : Bytes) : Files := ([manifestName], data) :: listedFiles w files

/-- What `verify_manifest` makes of a directory with the manifest `data`: it returns the files that are not named
`SHA256SUMS`, each once, and raises where one of them is missing or has other contents, of another digest. -/
structure ManifestVerified (host : KitHost) (w : Flavour) (files : Files) (data : Bytes) (disk : Disk) (root : PurePath) : Prop where
  accepted : verifyManifest host disk root =
    .ok (divText host.flavour root manifestName, kitEntries w files, host.sha256 data)
  nodup : (kitEntries w files).Nodup
  entries : ∀ e, e ∈ kitEntries w files ↔ ∃ file ∈ files, file.1.getLast? ≠ some manifestName ∧ e = relativePath file.1
  changed : ∀ disk' : Disk, disk'.file host.flavour (divText host.flavour root manifestName) = some data →
    ∀ file ∈ files, file.1.getLast? ≠ some manifestName →
      disk'.file host.flavour (div host.flavour root (relativePath file.1)) ≠ some file.2 →
      (∀ data', disk'.file host.flavour (div host.flavour root (relativePath file.1)) = some data' →
        host.sha256 data' = host.sha256 file.2 → data' = file.2) →
      ∃ err, verifyManifest host disk' root = .error err

section

variable {w : Flavour} {host : KitHost} {files : Files} {disk : Disk} {root : PurePath} {data : Bytes}
  {file : List (List Char) × Bytes}

theorem IsTree.eq_of_prefix {f : Flavour} {paths : List (List (List Char))} {p q : List (List Char)} (h : IsTree f paths)
    (hp : p ∈ paths) (hq : q ∈ paths) (hpq : p.map f.casefold <+: q.map f.casefold) : p = q := by
  by_contra hne
  exact (h.apart.forall hp hq hne).1 hpq

theorem Shippable.nodup_listedFiles (h : Shippable w host.flavour host.sha256 files) :
    ((listedFiles w files).map Prod.fst).Nodup := by
  have hpaths : ((files.map Prod.fst).filter (· ≠ [manifestName])).Nodup := by
    apply (List.pairwise_cons.mp h.started.apart).2.imp
    rintro p _ hp rfl
    exact hp.1 List.prefix_rfl
  have hperm : (listedFiles w files).Perm (files.filter fun x => x.1.getLast? ≠ some manifestName) :=
    (List.mergeSort_perm _ _).filter _
  rw [(hperm.map Prod.fst).nodup_iff]
  have hmap : (files.filter fun x => x.1.getLast? ≠ some manifestName).map Prod.fst =
      ((files.map Prod.fst).filter (· ≠ [manifestName])).filter (fun path => path.getLast? ≠ some manifestName) := by
    rw [List.filter_filter, List.filter_map]
    congr 1
    apply List.filter_congr
    intro x _
    by_cases hname : x.1 = [manifestName]
    · simp [hname]
    · simp [hname]
  rw [hmap]
  exact hpaths.filter _

theorem mem_kitEntries {e : PurePath} :
    e ∈ kitEntries w files ↔ ∃ file ∈ files, file.1.getLast? ≠ some manifestName ∧ e = relativePath file.1 := by
  constructor
  · intro he
    obtain ⟨file, hfile, rfl⟩ := List.mem_map.mp he
    exact ⟨file, (mem_listedFiles.mp hfile).1, (mem_listedFiles.mp hfile).2, rfl⟩
  · rintro ⟨file, hfile, hname, rfl⟩
    exact List.mem_map_of_mem (f := fun file => relativePath file.1) (mem_listedFiles.mpr ⟨hfile, hname⟩)

theorem Shippable.verified (h : Shippable w host.flavour host.sha256 files)
    (hdata : checksumFile w host.sha256 files = .ok data)
    (hmanifest : disk.file host.flavour (divText host.flavour root manifestName) = some data)
    (hdisk : ∀ file ∈ listedFiles w files,
      disk.file host.flavour (div host.flavour root (relativePath file.1)) = some file.2) :
    ManifestVerified host w files data disk root where
  accepted := h.verifyManifest_eq hdata hmanifest hdisk
  nodup := by
    have hmap : kitEntries w files = ((listedFiles w files).map Prod.fst).map relativePath := by
      rw [List.map_map]
      rfl
    rw [hmap]
    apply List.Nodup.map _ h.nodup_listedFiles
    intro p q heq
    exact (PurePath.mk.inj heq).2.2
  entries := fun e => mem_kitEntries
  changed := by
    intro disk' hmanifest' file hfile hname hother hcollision
    apply h.verifyManifest_changed hdata hmanifest' (mem_listedFiles.mpr ⟨hfile, hname⟩)
    intro data' hdata' hsha
    exact hother (hcollision data' hdata' hsha ▸ hdata')

/-- The files of a kit are found below its directory. -/
theorem Stored.file_div (hs : Stored host.flavour disk root files) (hfile : file ∈ files)
    (hne : file.1 ≠ []) (hname : ∀ x ∈ file.1, FileName host.flavour x) :
    disk.file host.flavour (div host.flavour root (relativePath file.1)) = some file.2 := by
  have hdiv : div host.flavour root (relativePath file.1) = ⟨root.drv, root.root, root.names ++ file.1⟩ := div_names hname root
  rw [Disk.file_eq_some, hdiv, cparts_append]
  exact (hs _ (by simpa using hne) file.2).mpr ⟨file, hfile, rfl, rfl⟩

theorem Stored.file_manifest (hs : Stored host.flavour disk root (([manifestName], data) :: files)) :
    disk.file host.flavour (divText host.flavour root manifestName) = some data := by
  rw [Disk.file_eq_some, divText_manifestName, cparts_append]
  exact (hs _ (by simp) data).mpr ⟨_, List.mem_cons_self, rfl, rfl⟩

/-- A disk with the manifest of a kit. -/
def withManifest (f : Flavour) (root : PurePath) (data : Bytes) (disk : Disk) : Disk :=
  Function.update disk (root.cparts f ++ [manifestName].map f.casefold) (some (.file data))

/-- What the builder leaves is the kit with its manifest. -/
theorem Stored.writeManifest {v : Flavour} {sha256 : Bytes → List Char} (h : Shippable w v sha256 files)
    (hs : Stored w disk root files) (hdirectory : disk (root.cparts w ++ [manifestName].map w.casefold) ≠ some .directory)
    (hdata : checksumFile w sha256 files = .ok data) :
    writeManifest w sha256 root files disk = (.ok (), withManifest w root data disk) ∧
      Stored w (withManifest w root data disk) root (kitFiles files data) := by
  have hkey : (divText w root manifestName).cparts w = root.cparts w ++ [manifestName].map w.casefold := by
    rw [divText_manifestName, cparts_append]
  refine ⟨?_, ?_⟩
  · rw [Host.writeManifest, hkey, if_neg hdirectory, hdata]
    rfl
  · intro key hne data'
    -- no other file has the name of the manifest for the file system
    have hother {file : List (List Char) × Bytes} (hfile : file ∈ files) (hpath : file.1 ≠ [manifestName]) :
        file.1.map w.casefold ≠ [manifestName].map w.casefold := by
      intro heq
      have hmem : file.1 ∈ (files.map Prod.fst).filter (· ≠ [manifestName]) :=
        List.mem_filter.mpr ⟨List.mem_map_of_mem hfile, by simpa using hpath⟩
      have hapart := (List.pairwise_cons.mp h.built.apart).1 _ hmem
      exact hapart.1 (heq ▸ List.prefix_refl _)
    by_cases heq : key = [manifestName].map w.casefold
    · rw [heq, withManifest, Function.update_self]
      constructor
      · intro hfile
        cases hfile
        exact ⟨_, List.mem_cons_self, rfl, rfl⟩
      · rintro ⟨file, hfile, hname, rfl⟩
        rcases List.mem_cons.mp hfile with rfl | hfile
        · rfl
        · obtain ⟨hmem, hpath⟩ := List.mem_filter.mp hfile
          exact absurd hname (hother hmem (by simpa using hpath))
    · rw [withManifest, Function.update_of_ne fun hsame => heq (List.append_cancel_left hsame), hs key hne data']
      constructor
      · rintro ⟨file, hfile, rfl, rfl⟩
        have hpath : file.1 ≠ [manifestName] := fun hpath => heq (by rw [hpath])
        exact ⟨file, List.mem_cons_of_mem _ (List.mem_filter.mpr ⟨hfile, by simpa using hpath⟩), rfl, rfl⟩
      · rintro ⟨file, hfile, hname, rfl⟩
        rcases List.mem_cons.mp hfile with rfl | hfile
        · exact absurd hname.symm heq
        · exact ⟨file, (List.mem_filter.mp hfile).1, hname, rfl⟩

/-- Nothing is copied to a fresh directory yet. -/
theorem Fresh.staged (hf : Fresh host.flavour disk root) :
    Staged host.flavour (root.cparts host.flavour) disk [] [] disk where
  path := hf.path
  outside := fun _ _ _ => Iff.rfl
  file := by
    intro k hk data
    simp [hf.empty k hk]
  directory := by
    intro k hk hdir
    rw [hf.empty k hk] at hdir
    cases hdir

/-- What is stored elsewhere is not below a fresh directory. -/
theorem Fresh.ne_of_file {key : List (List Char)} (hf : Fresh host.flavour disk root) (hkey : disk key = some (.file data)) :
    ∀ k ≠ [], key ≠ root.cparts host.flavour ++ k := by
  rintro k hk rfl
  rw [hf.empty k hk] at hkey
  cases hkey

/-- One file of the kit is copied: its directory is made, then the file. -/
private theorem Shippable.copyEntry_staged (h : Shippable w host.flavour host.sha256 files) {start : Disk}
    {destination : PurePath} (hf : Fresh host.flavour start destination) {done : Files}
    (hstored : start.file host.flavour (div host.flavour host.kitRoot (relativePath file.1)) = some file.2)
    (hfile : file ∈ listedFiles w files) (hdone : ∀ y ∈ done, y ∈ listedFiles w files) (hnew : ∀ y ∈ done, file.1 ≠ y.1)
    (hs : Staged host.flavour (destination.cparts host.flavour) start [] done disk) :
    ∃ disk₁ disk₂, mkdir host.flavour (div host.flavour destination (relativePath file.1)).parent disk =
        (.ok (), disk₁, []) ∧
      copyfile host.flavour (div host.flavour host.kitRoot (relativePath file.1))
        (div host.flavour destination (relativePath file.1)) disk₁ =
          (.ok (), disk₂, [entryCopy host destination (relativePath file.1)]) ∧
      Staged host.flavour (destination.cparts host.flavour) start [] (file :: done) disk₂ := by
  obtain ⟨hne, hname⟩ := h.started.ne_nil_of_listed hfile
  have hpath {y : List (List Char) × Bytes} (hy : y ∈ listedFiles w files) : y.1 ∈ kitPaths files :=
    List.mem_cons_of_mem _ (mem_paths_of_listed hy)
  have hapart : ∀ y ∈ done, ¬ file.1.map host.flavour.casefold <+: y.1.map host.flavour.casefold := fun y hy hle =>
    hnew y hy (h.started.eq_of_prefix (hpath hfile) (hpath (hdone y hy)) hle)
  have hparent : file.1.dropLast.map host.flavour.casefold <+: file.1.map host.flavour.casefold :=
    (List.dropLast_prefix _).map _
  have hapart' : ∀ y ∈ done, ¬ y.1.map host.flavour.casefold <+: file.1.dropLast.map host.flavour.casefold :=
    fun y hy hle => (hnew y hy).symm (h.started.eq_of_prefix (hpath (hdone y hy)) (hpath hfile) (hle.trans hparent))
  have htarget : div host.flavour destination (relativePath file.1) =
      ⟨destination.drv, destination.root, destination.names ++ file.1⟩ := div_names hname destination
  have hkey : (div host.flavour destination (relativePath file.1)).cparts host.flavour =
      destination.cparts host.flavour ++ file.1.map host.flavour.casefold := by
    rw [htarget, cparts_append]
  have hparentKey : (div host.flavour destination (relativePath file.1)).parent.cparts host.flavour =
      destination.cparts host.flavour ++ file.1.dropLast.map host.flavour.casefold := by
    rw [htarget, ← cparts_append, parent, List.dropLast_append_of_ne_nil hne]
  have hlonger : ¬ file.1.map host.flavour.casefold <+: file.1.dropLast.map host.flavour.casefold := by
    intro hle
    have := hle.length_le
    have := List.length_pos_iff.mpr hne
    simp only [List.length_map, List.length_dropLast] at *
    omega
  obtain ⟨disk₁, hmkdir, hs₁⟩ := hs.mkdir hparentKey hapart'
  have hsource := Disk.file_eq_some.mp hstored
  obtain ⟨disk₂, hcopy, hs₂⟩ := hs₁.copyfile hne hsource (hf.ne_of_file hsource) hkey hparent hlonger hapart
  exact ⟨disk₁, disk₂, hmkdir, hcopy, hs₂⟩

/-- The loop over the entries copies the files of the kit. -/
theorem Shippable.copyEntries_staged (h : Shippable w host.flavour host.sha256 files) {start : Disk} {destination : PurePath}
    (hf : Fresh host.flavour start destination)
    (hstored : ∀ file ∈ listedFiles w files,
      start.file host.flavour (div host.flavour host.kitRoot (relativePath file.1)) = some file.2)
    {rest done : Files} (hrest : ∀ file ∈ rest, file ∈ listedFiles w files) (hdone : ∀ file ∈ done, file ∈ listedFiles w files)
    (hnodup : ((rest ++ done).map Prod.fst).Nodup)
    (hs : Staged host.flavour (destination.cparts host.flavour) start [] done disk) :
    ∃ disk' l, copyEntries host destination (rest.map fun file => relativePath file.1) disk = (.ok (), disk', l) ∧
      Staged host.flavour (destination.cparts host.flavour) start [] (rest.reverse ++ done) disk' := by
  induction rest generalizing done disk with
  | nil => exact ⟨disk, [], rfl, hs⟩
  | cons file rest ih =>
    have hfile := hrest file List.mem_cons_self
    have hnew : ∀ y ∈ done, file.1 ≠ y.1 := by
      intro y hy heq
      rw [List.cons_append, List.map_cons, List.nodup_cons] at hnodup
      exact hnodup.1 (heq ▸ List.mem_map_of_mem (List.mem_append_right rest hy))
    obtain ⟨disk₁, disk₂, hmkdir, hcopy, hs₂⟩ := h.copyEntry_staged hf (hstored file hfile) hfile hdone hnew hs
    have hnodup' : ((rest ++ file :: done).map Prod.fst).Nodup := by
      rwa [(List.perm_middle.map Prod.fst).nodup_iff]
    have hdone' : ∀ y ∈ file :: done, y ∈ listedFiles w files := List.forall_mem_cons.mpr ⟨hfile, hdone⟩
    obtain ⟨disk₃, l, hrun, hs₃⟩ := ih (fun y hy => hrest y (List.mem_cons_of_mem _ hy)) hdone' hnodup' hs₂
    refine ⟨disk₃, entryCopy host destination (relativePath file.1) :: l, ?_, ?_⟩
    · rw [List.map_cons, copyEntries, Traced.run_bind_ok hmkdir, Traced.run_bind_ok hcopy, hrun]
      rfl
    · simpa using hs₃

/-- A kit is staged into a fresh directory of the session. -/
theorem Shippable.stageAndRelaunch_eq (h : Shippable w host.flavour host.sha256 files)
    (hdata : checksumFile w host.sha256 files = .ok data)
    (hf : Fresh host.flavour disk (sessionDirectory host (host.sha256 data)))
    (hmanifest : disk.file host.flavour (divText host.flavour host.kitRoot manifestName) = some data)
    (hstored : ∀ file ∈ listedFiles w files,
      disk.file host.flavour (div host.flavour host.kitRoot (relativePath file.1)) = some file.2) :
    ∃ disk' l, stageAndRelaunch host (divText host.flavour host.kitRoot manifestName) (kitEntries w files)
        (host.sha256 data) disk = (.ok (), disk', l) ∧
      Stored host.flavour disk' (sessionDirectory host (host.sha256 data)) (stagedFiles w files data) ∧
        ManifestVerified host w files data disk' (sessionDirectory host (host.sha256 data)) := by
  obtain ⟨disk₁, hmkdir, hs₁⟩ := hf.staged.mkdir (k := []) (List.append_nil _).symm nofun
  have hnodup : ((listedFiles w files ++ []).map Prod.fst).Nodup := by
    rw [List.append_nil]
    exact h.nodup_listedFiles
  obtain ⟨disk₂, l, hcopies, hs₂⟩ := h.copyEntries_staged hf hstored (fun _ hfile => hfile)
    (fun _ hfile => absurd hfile List.not_mem_nil) hnodup hs₁
  rw [List.append_nil] at hs₂
  have hname : (divText host.flavour host.kitRoot manifestName).name = manifestName := by
    rw [divText_manifestName]
    simp [name]
  have hsource := Disk.file_eq_some.mp hmanifest
  have hapart : ∀ y ∈ (listedFiles w files).reverse,
      ¬ [manifestName].map host.flavour.casefold <+: y.1.map host.flavour.casefold := by
    intro y hy hle
    have hy := List.mem_reverse.mp hy
    have heq := h.started.eq_of_prefix List.mem_cons_self (List.mem_cons_of_mem _ (mem_paths_of_listed hy)) hle
    exact (mem_listedFiles.mp hy).2 (by rw [← heq]; rfl)
  have hkey : (divText host.flavour (sessionDirectory host (host.sha256 data)) manifestName).cparts host.flavour =
      (sessionDirectory host (host.sha256 data)).cparts host.flavour ++ [manifestName].map host.flavour.casefold := by
    rw [divText_manifestName, cparts_append]
  obtain ⟨disk₃, hcopy, hs₃⟩ := hs₂.copyfile (x := ([manifestName], data)) (List.cons_ne_nil _ _) hsource
    (hf.ne_of_file hsource) hkey List.nil_prefix (by simp) hapart
  have hstaged : Stored host.flavour disk₃ (sessionDirectory host (host.sha256 data)) (stagedFiles w files data) := by
    intro key hkey data'
    rw [hs₃.file key hkey data']
    simp [stagedFiles]
  have hverified : ManifestVerified host w files data disk₃ (sessionDirectory host (host.sha256 data)) := by
    apply h.verified hdata hstaged.file_manifest
    intro file hfile
    obtain ⟨hne, hnames⟩ := h.started.ne_nil_of_listed hfile
    exact hstaged.file_div (List.mem_cons_of_mem _ hfile) hne hnames
  have hread : onDisk (fun disk => verifyManifest host disk (sessionDirectory host (host.sha256 data))) disk₃ =
      (.ok (divText host.flavour (sessionDirectory host (host.sha256 data)) manifestName, kitEntries w files,
        host.sha256 data), disk₃, []) := by
    rw [onDisk, hverified.accepted]
  rcases hrun : stageAndRelaunch host (divText host.flavour host.kitRoot manifestName) (kitEntries w files)
    (host.sha256 data) disk with ⟨r, disk', l'⟩
  unfold stageAndRelaunch at hrun
  dsimp only at hrun
  rw [hname, Traced.run_bind_ok hmkdir, kitEntries, Traced.run_bind_ok hcopies, Traced.run_bind_ok hcopy,
    Traced.run_bind_ok hread] at hrun
  cases hrun
  exact ⟨disk₃, _, rfl, hstaged, hverified⟩

/-- The manifest that is written for a kit is the one that is verified: it is accepted with the files that are not named
`SHA256SUMS`, each once, and a change is found.  The same holds for what is staged from it, which is the listed files and
the manifest. -/
theorem kit_manifest_agrees (h : Shippable w host.flavour host.sha256 files) :
    ∃ data, checksumFile w host.sha256 files = .ok data ∧
      ∀ disk root, Stored host.flavour disk root (kitFiles files data) →
        ManifestVerified host w files data disk root ∧
        (root = host.kitRoot → Fresh host.flavour disk (sessionDirectory host (host.sha256 data)) →
          ∃ disk' l, stageAndRelaunch host (divText host.flavour root manifestName) (kitEntries w files)
              (host.sha256 data) disk = (.ok (), disk', l) ∧
            Stored host.flavour disk' (sessionDirectory host (host.sha256 data)) (stagedFiles w files data) ∧
              ManifestVerified host w files data disk' (sessionDirectory host (host.sha256 data))) := by
  obtain ⟨data, text, hdata, -, -⟩ := h.readText_checksumFile
  refine ⟨data, hdata, ?_⟩
  intro disk root hs
  have hmanifest := hs.file_manifest
  have hstored : ∀ file ∈ listedFiles w files,
      disk.file host.flavour (div host.flavour root (relativePath file.1)) = some file.2 := by
    intro file hfile
    obtain ⟨hne, hnames⟩ := h.started.ne_nil_of_listed hfile
    have hother := (List.mem_filter.mp (mem_paths_of_listed hfile)).2
    have hmem : file ∈ files.filter fun file => file.1 ≠ [manifestName] :=
      List.mem_filter.mpr ⟨(mem_listedFiles.mp hfile).1, hother⟩
    exact hs.file_div (List.mem_cons_of_mem _ hmem) hne hnames
  refine ⟨h.verified hdata hmanifest hstored, ?_⟩
  rintro rfl hf
  exact h.stageAndRelaunch_eq hdata hf hmanifest hstored

end

/-! ### Kits -/

/-- A disk with these files below a directory. -/
def diskOf (f : Flavour) (base : PurePath) (files : Files) : Disk := fun key =>
  (files.find? fun x => base.cparts f ++ x.1.map f.casefold = key).map fun x => .file x.2

theorem stored_diskOf {f : Flavour} {base : PurePath} {files : Files}
    (h : (files.map fun x => x.1.map f.casefold).Nodup) : Stored f (diskOf f base files) base files := by
  intro key _ data
  induction files with
  | nil => simp [diskOf]
  | cons x files ih =>
    rw [List.map_cons, List.nodup_cons] at h
    by_cases hkey : x.1.map f.casefold = key
    · have hfound : diskOf f base (x :: files) (base.cparts f ++ key) = some (.file x.2) := by
        simp [diskOf, hkey]
      rw [hfound]
      constructor
      · intro hdata
        exact ⟨x, List.mem_cons_self, hkey, by simpa using hdata⟩
      · rintro ⟨y, hy, hykey, rfl⟩
        rcases List.mem_cons.mp hy with rfl | hy
        · rfl
        · exact absurd (List.mem_map_of_mem hy) (hkey.trans hykey.symm ▸ h.1)
    · have hnext : diskOf f base (x :: files) (base.cparts f ++ key) = diskOf f base files (base.cparts f ++ key) := by
        simp [diskOf, hkey]
      rw [hnext, ih h.2]
      constructor
      · rintro ⟨y, hy, hykey⟩
        exact ⟨y, List.mem_cons_of_mem _ hy, hykey⟩
      · rintro ⟨y, hy, hykey⟩
        rcases List.mem_cons.mp hy with rfl | hy
        · exact absurd hykey.1 hkey
        · exact ⟨y, hy, hykey⟩

/-- A kit with a directory. -/
def treeFiles : Files := [([['d'], ['x']], [0x61]), ([['y']], [])]

/-- The digest of the file in it. -/
def letterDigest : List Char := "ca978112ca1bbdcafac231b39a23dc4da786eff8147c4e72b9807785afee48bb".toList

/-- The manifest of this kit, that of a kit with the empty file `x`, and that of one with an empty file `sha256sums`. -/
def treeManifest : Bytes := encodeAscii (letterDigest ++ "  d/x\n".toList ++ (emptyDigest ++ "  y\n".toList))

def smallManifest : Bytes := encodeAscii (emptyDigest ++ "  x\n".toList)

def variantManifest : Bytes := encodeAscii (emptyDigest ++ "  sha256sums\r\n".toList)

/-- The digests of the files here that are not empty. -/
def digests : List (Bytes × List Char) :=
  [([0x61], letterDigest),
   (treeManifest, "ca68b9f518ff4760747ec603467ec0597cc855a8d237823cd68e72ffc476f07b".toList),
   (smallManifest, "f12c9c548b94d5f1ffd46d951f3b28929b80f9476a3834d55cf01f51f3a5d4f4".toList),
   (variantManifest, "0d60a0a5f6631f2fb0ad8a47f02b3f07c4b97418383e0684029c7e615d5851ac".toList)]

/-- A host with POSIX paths; its digests are those of the files that it reads. -/
def posixHost : KitHost where
  flavour := .posix
  sha256 := fun data => (digests.lookup data).getD emptyDigest
  kitRoot := ⟨[], ['/'], [['k', 'i', 't']]⟩
  runtimeRoot := ⟨[], ['/'], [['r', 'u', 'n']]⟩
  now := "20260810_120000".toList
  pid := 1
  executable := ['p', 'y']
  arguments := []

theorem isDigest_posixHost (data : Bytes) : isDigest (posixHost.sha256 data) = true := by
  have hall : ∀ x ∈ digests, isDigest x.2 = true := by decide +kernel
  change isDigest ((digests.lookup data).getD emptyDigest) = true
  cases hfound : digests.lookup data with
  | none => decide
  | some digest =>
    obtain ⟨l₁, l₂, hsplit, -⟩ := List.lookup_eq_some_iff.mp hfound
    exact hall (data, digest) (by rw [hsplit]; simp)

theorem shippable_tree : Shippable .posix .posix posixHost.sha256 treeFiles where
  digest := isDigest_posixHost
  ascii := by
    have hall : (treeFiles.all fun file => file.1.all fun name => name.all fun c =>
        decide (c.toNat < 0x80 ∧ isLineBoundary c = false)) = true := by decide
    simpa only [List.all_eq_true, decide_eq_true_eq] using hall
  built := ⟨by decide, by decide, by decide⟩
  started := ⟨by decide, by decide, by decide⟩
  listed := ⟨_, List.mem_cons_self, by decide⟩

theorem checksumFile_tree : checksumFile .posix posixHost.sha256 treeFiles = .ok treeManifest := by
  have hlisted : listedFiles .posix treeFiles = treeFiles := by
    rw [listedFiles, List.mergeSort_of_pairwise (by decide)]
    rfl
  rw [checksumFile, hlisted]
  rfl

/-- All that is on the disk is below the kit. -/
theorem prefix_of_withManifest {f : Flavour} {base : PurePath} {files : Files} {data : Bytes} {key : List (List Char)}
    (h : withManifest f base data (diskOf f base files) key ≠ none) : base.cparts f <+: key := by
  rw [withManifest] at h
  by_cases heq : key = base.cparts f ++ [manifestName].map f.casefold
  · rw [heq]
    exact List.prefix_append _ _
  · rw [Function.update_of_ne heq, diskOf, Ne, Option.map_eq_none_iff] at h
    obtain ⟨x, hx⟩ := Option.ne_none_iff_exists'.mp h
    have hkey := List.find?_some hx
    rw [← of_decide_eq_true hkey]
    exact List.prefix_append _ _

/-- The manifest is written into the kit, the kit verified, and staged. -/
theorem kit_manifest_agrees_tree : ∃ disk,
    writeManifest .posix posixHost.sha256 posixHost.kitRoot treeFiles (diskOf .posix posixHost.kitRoot treeFiles) =
      (.ok (), disk) ∧
    ManifestVerified posixHost .posix treeFiles treeManifest disk posixHost.kitRoot ∧
    ∃ disk' l, stageAndRelaunch posixHost (divText .posix posixHost.kitRoot manifestName) (kitEntries .posix treeFiles)
        (posixHost.sha256 treeManifest) disk = (.ok (), disk', l) ∧
      Stored .posix disk' (sessionDirectory posixHost (posixHost.sha256 treeManifest))
        (stagedFiles .posix treeFiles treeManifest) := by
  have htree : Shippable .posix posixHost.flavour posixHost.sha256 treeFiles := shippable_tree
  have hstored : Stored .posix (diskOf .posix posixHost.kitRoot treeFiles) posixHost.kitRoot treeFiles :=
    stored_diskOf (by decide)
  obtain ⟨hwrite, hkit⟩ := hstored.writeManifest shippable_tree (by decide) checksumFile_tree
  obtain ⟨data, hdata, hagrees⟩ := kit_manifest_agrees htree
  obtain rfl := Except.ok.inj (hdata.symm.trans checksumFile_tree)
  obtain ⟨hverified, hstaged⟩ := hagrees _ posixHost.kitRoot hkit
  -- the session is below another directory
  have hapart : ¬ posixHost.kitRoot.cparts .posix <+:
      (sessionDirectory posixHost (posixHost.sha256 treeManifest)).cparts .posix := by decide +kernel
  have hfresh : Fresh .posix (withManifest .posix posixHost.kitRoot treeManifest (diskOf .posix posixHost.kitRoot treeFiles))
      (sessionDirectory posixHost (posixHost.sha256 treeManifest)) := by
    constructor
    · intro key _ hkey data hdata
      exact hapart ((prefix_of_withManifest (by rw [hdata]; exact Option.some_ne_none _)).trans hkey)
    · intro key _
      by_contra hne
      have hlength : (posixHost.kitRoot.cparts .posix).length ≤
          ((sessionDirectory posixHost (posixHost.sha256 treeManifest)).cparts .posix).length := by decide +kernel
      exact hapart (List.prefix_of_prefix_length_le (prefix_of_withManifest hne) (List.prefix_append _ _) hlength)
  obtain ⟨disk', l, hrun, hstored', -⟩ := hstaged rfl hfresh
  exact ⟨_, hwrite, hverified, disk', l, hrun, hstored'⟩

/-- A disk with a kit that has a directory `SHA256SUMS`. -/
def directoryDisk : Disk := fun key =>
  if key = posixHost.kitRoot.cparts .posix ++ [manifestName] then some .directory
  else diskOf .posix posixHost.kitRoot [([manifestName, ['x']], [])] key

/-- A Windows host, with the kit on `E:`. -/
def windowsHost : KitHost := { posixHost with flavour := .windows, kitRoot := ⟨['E', ':'], ['\\'], [['k', 'i', 't']]⟩ }

/-- The kit with the file `x`, and a session directory with a file `y`. -/
def usedDisk : Disk := fun key =>
  if key = (sessionDirectory posixHost (posixHost.sha256 smallManifest)).cparts .posix ++ [['y']] then some (.file [])
  else diskOf .posix posixHost.kitRoot (kitFiles [([['x']], [])] smallManifest) key

theorem listedFiles_singleton (f : Flavour) {file : List (List Char) × Bytes} (h : file.1.getLast? ≠ some manifestName) :
    listedFiles f [file] = [file] := by
  rw [listedFiles, List.mergeSort_singleton, List.filter_singleton, decide_eq_true h]
  rfl

/-- A kit whose only file is a `SHA256SUMS` further below gets an empty list, which is not accepted.  Where `SHA256SUMS` is
a directory, the manifest cannot be written; where a name is the same for Windows, it is written over this file, whose
digest is then another one.  A file that is in the directory of the session before the staging is there afterwards. -/
theorem kit_manifest_exceptions :
    (∃ disk, writeManifest .posix posixHost.sha256 posixHost.kitRoot [([['s', 'u', 'b'], manifestName], [])]
        (diskOf .posix posixHost.kitRoot [([['s', 'u', 'b'], manifestName], [])]) = (.ok (), disk) ∧
      verifyManifest posixHost disk posixHost.kitRoot = .error (.runtimeError "SHA256SUMS contains no files")) ∧
    writeManifest .posix posixHost.sha256 posixHost.kitRoot [([manifestName, ['x']], [])] directoryDisk =
      (.error .osError, directoryDisk) ∧
    (∃ disk, writeManifest .windows windowsHost.sha256 windowsHost.kitRoot [(["sha256sums".toList], [])]
        (diskOf .windows windowsHost.kitRoot [(["sha256sums".toList], [])]) = (.ok (), disk) ∧
      ∃ err, verifyManifest windowsHost disk windowsHost.kitRoot = .error err) ∧
    checksumFile .posix posixHost.sha256 [([['x']], [])] = .ok smallManifest ∧
      ∃ disk l, stageAndRelaunch posixHost (divText .posix posixHost.kitRoot manifestName) [relativePath [['x']]]
          (posixHost.sha256 smallManifest) usedDisk = (.ok (), disk, l) ∧
        disk ((sessionDirectory posixHost (posixHost.sha256 smallManifest)).cparts .posix ++ [['y']]) = some (.file []) := by
  have hempty : checksumFile .posix posixHost.sha256 [([['s', 'u', 'b'], manifestName], [])] = .ok [0x0A] := by
    rw [checksumFile, listedFiles, List.mergeSort_singleton]
    rfl
  have hvariant : checksumFile .windows windowsHost.sha256 [(["sha256sums".toList], [])] = .ok variantManifest := by
    rw [checksumFile, listedFiles_singleton _ (by decide)]
    rfl
  refine ⟨⟨_, by rw [writeManifest, hempty]; rfl, rfl⟩, rfl, ⟨_, by rw [writeManifest, hvariant]; rfl, _, rfl⟩, ?_, _, _,
    rfl, rfl⟩
  rw [checksumFile, listedFiles_singleton _ (by decide)]
  rfl

end ShadowMsm.Host
