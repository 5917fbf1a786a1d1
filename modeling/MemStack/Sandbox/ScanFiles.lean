import MemStack.Util.Glob
import MemStack.Util.Text

/-!
This module contains the scan of a directory tree for files (`sandbox-mcp-server/src/tools/file_tools.py`), and
which files it collects. There are no symbolic links in the tree.
-/

namespace MemStack
namespace Sandbox
namespace ScanFiles

section Trees

structure FileName where
  text : String
  ne : text ≠ ""
  noSlash : '/' ∉ text.toList
  notDot : text ≠ "."
  notDots : text ≠ ".."

inductive Dir where
  | mk (files : List FileName) (dirs : List (FileName × Dir))

inductive Base where
  | file (name : FileName)
  | dir (dir : Dir)

abbrev RelativePath := List FileName

def asPosix (path : RelativePath) : String :=
  String.intercalate "/" (path.map FileName.text)

end Trees

section Scan

variable (pattern : Option String) (excludes : List String) (maxFiles : Nat)
-- Whether the clock, read so many times before, shows that the time budget is spent.
variable (late : Nat → Bool)

def isScanExcluded (relativePath : RelativePath) : Bool :=
  relativePath.any fun part => excludes.any fun exclude => part.text = exclude || Glob.fnmatch part.text exclude

def matchesFilePattern (relativePath : RelativePath) : Bool :=
  match pattern with
  | none => true
  | some normalized =>
    if normalized = "" then true
    else if !normalized.toList.contains '/' && !Text.contains normalized "**" then
      match relativePath with
      | [name] => Glob.fnmatch name.text normalized
      | _ => false
    else
      Glob.fnmatch (asPosix relativePath) normalized ||
        (['*', '*', '/'].isPrefixOf normalized.toList &&
          Glob.fnmatch (asPosix relativePath) (String.ofList (normalized.toList.drop 3)))

structure Scan where
  files : List RelativePath
  filesSeen : Nat
  skippedDirs : Nat
  truncated : Bool
  -- How many times the clock was read.
  readings : Nat

def readClock (s : Scan) : Scan :=
  { s with truncated := s.truncated || late s.readings, readings := s.readings + 1 }

def collect (path : RelativePath) (s : Scan) : Scan :=
  let s := { s with filesSeen := s.filesSeen + 1 }
  if matchesFilePattern pattern path then
    let s := { s with files := s.files ++ [path] }
    if maxFiles ≤ s.files.length then { s with truncated := true } else readClock late s
  else readClock late s

def scanFilenames (root : RelativePath) : List FileName → Scan → Scan
  | [], s => s
  | name :: names, s =>
    if isScanExcluded excludes (root ++ [name]) then scanFilenames root names s
    else
      let s := collect pattern maxFiles late (root ++ [name]) s
      if s.truncated then s else scanFilenames root names s

mutual

def scanDir (root : RelativePath) : Dir → Scan → Scan
  | .mk files dirs, s =>
    let s := readClock late s
    if s.truncated then s
    else
      let skipped := dirs.countP fun dir => isScanExcluded excludes (root ++ [dir.1])
      let s := scanFilenames pattern excludes maxFiles late root files { s with skippedDirs := s.skippedDirs + skipped }
      if s.truncated then s else scanDirs root dirs s

def scanDirs (root : RelativePath) : List (FileName × Dir) → Scan → Scan
  | [], s => s
  | (name, dir) :: dirs, s =>
    if isScanExcluded excludes (root ++ [name]) then scanDirs root dirs s
    else
      let s := scanDir (root ++ [name]) dir s
      if s.truncated then s else scanDirs root dirs s

end

def collectScanFiles : Base → Scan
  | .file name => ⟨if matchesFilePattern pattern [name] then [[]] else [], 1, 0, false, 0⟩
  | .dir dir => scanDir pattern excludes maxFiles late [] dir ⟨[], 0, 0, false, 0⟩

end Scan

section Matches

variable {pattern : String} {path : RelativePath}

def texts (path : RelativePath) : List (List Char) :=
  path.map fun name => name.text.toList

def Flat (pattern : List Char) : Prop :=
  '/' ∉ pattern ∧ ¬['*', '*'] <:+: pattern

inductive Fits (pattern : List Char) (names : List (List Char)) : Prop
  | flat (h : Flat pattern)
  | plain (h : Glob.Plain pattern)
      (hcount : Glob.matchText (Glob.pathText names) pattern = true → names.length = (pattern.splitOn '/').length)
  | anywhere (below : List Char) (heq : pattern = ['*', '*', '/'] ++ below) (h : Glob.Plain below)
      (hcount : ∀ rest, rest <:+ names → rest ≠ [] → Glob.matchText (Glob.pathText rest) below = true →
        ∃ rest', rest' <:+ names ∧ rest'.length = (below.splitOn '/').length ∧
          Glob.matchText (Glob.pathText rest') below = true)
  | untaken (h : Glob.matchText (Glob.pathText names) pattern = false)
      (hbelow : ∀ below, pattern = ['*', '*', '/'] ++ below → Glob.matchText (Glob.pathText names) below = false)
      (hpath : Glob.matchPath pattern names = false)

inductive Readable (pattern : List Char) : Prop
  | flat (h : Flat pattern)
  | plain (h : Glob.Plain pattern)
  | anywhere (below : List Char) (heq : pattern = ['*', '*', '/'] ++ below) (h : Glob.Plain below)

theorem toList_asPosix (path : RelativePath) : (asPosix path).toList = Glob.pathText (texts path) := by
  unfold asPosix Glob.pathText texts
  rw [String.toList_intercalate, List.map_map]
  rfl

theorem texts_noSlash (path : RelativePath) : ∀ n ∈ texts path, '/' ∉ n := by
  intro n hn
  obtain ⟨name, -, rfl⟩ := List.mem_map.mp hn
  exact name.noSlash

theorem texts_ne_nil (h : path ≠ []) : texts path ≠ [] := by
  unfold texts
  simpa using h

theorem flat_iff (pattern : String)
    : (!pattern.toList.contains '/' && !Text.contains pattern "**") = true ↔ Flat pattern.toList := by
  have hstars : Text.contains pattern "**" = true ↔ ['*', '*'] <:+: pattern.toList := by
    unfold Text.contains
    rw [List.any_eq_true, List.infix_iff_prefix_suffix]
    simp only [List.mem_tails, List.isPrefixOf_iff_prefix]
    constructor
    . rintro ⟨t, hsuffix, hprefix⟩
      exact ⟨t, hprefix, hsuffix⟩
    . rintro ⟨t, hprefix, hsuffix⟩
      exact ⟨t, hsuffix, hprefix⟩
  unfold Flat
  rw [← hstars, Bool.and_eq_true, Bool.not_eq_true', Bool.not_eq_true', Bool.not_eq_true, ← Bool.not_eq_true,
    List.contains_iff_mem]

theorem matchesFilePattern_flat (hne : pattern ≠ "") (h : Flat pattern.toList) (hpath : path ≠ [])
    : matchesFilePattern (some pattern) path = Glob.matchPath pattern.toList (texts path) := by
  have hsplit : pattern.toList.splitOn '/' = [pattern.toList] := List.splitOn_eq_singleton h.1
  have hnil : pattern.toList ≠ [] := by simpa using hne
  have hsuffix : ¬['/'] <:+ pattern.toList := by
    intro hsuffix
    exact h.1 (hsuffix.subset List.mem_cons_self)
  have hstars : pattern.toList ≠ ['*', '*'] := by
    intro heq
    exact h.2 (by rw [heq])
  rw [Glob.matchPath_of_not_suffix hsuffix, Glob.partsOf, hsplit]
  unfold matchesFilePattern
  simp only [if_neg hne, if_pos ((flat_iff pattern).mpr h)]
  obtain ⟨name, path, rfl⟩ := List.exists_cons_of_ne_nil hpath
  by_cases hdot : pattern.toList = ['.']
  . -- No file is named like the current directory.
    rw [hdot]
    have hname : Glob.fnmatch name.text pattern = false := by
      rw [← Bool.not_eq_true]
      intro hmatch
      have htokens : Glob.matchTokens [.lit '.'] name.text.toList = true := by
        unfold Glob.fnmatch at hmatch
        rw [hdot] at hmatch
        exact hmatch
      rw [Glob.matchTokens_cons (by simp)] at htokens
      obtain ⟨c, v, hname, hc, hrest⟩ := htokens
      have hdots : c = '.' := by simpa [Glob.Token.accepts] using hc
      have hnone : v = [] := by simpa [Glob.matchTokens] using hrest
      exact name.notDot (String.toList_inj.mp (by rw [hname, hdots, hnone]; rfl))
    cases path with
    | nil => exact hname
    | cons _ _ => rfl
  . rw [List.filter_cons_of_pos (by simp [hnil, hdot]), List.filter_nil]
    unfold texts
    rw [List.map_cons, Glob.matchParts_cons hstars]
    cases path with
    | nil => exact (Bool.and_true _).symm
    | cons _ _ => exact (Bool.and_false _).symm

theorem matchesFilePattern_path (hne : pattern ≠ "") (h : ¬Flat pattern.toList)
    : matchesFilePattern (some pattern) path =
      (Glob.matchText (Glob.pathText (texts path)) pattern.toList ||
        (['*', '*', '/'].isPrefixOf pattern.toList &&
          Glob.matchText (Glob.pathText (texts path)) (pattern.toList.drop 3))) := by
  unfold matchesFilePattern Glob.fnmatch
  rw [← flat_iff] at h
  simp only [if_neg hne, if_neg h, toList_asPosix, String.toList_ofList]
  rfl

end Matches

section Files

variable {pattern : Option String} {excludes : List String} {maxFiles : Nat} {late : Nat → Bool}

mutual

def Dir.names : Dir → List FileName
  | .mk files dirs => files ++ dirNames dirs

def dirNames : List (FileName × Dir) → List FileName
  | [] => []
  | (name, dir) :: dirs => name :: (dir.names ++ dirNames dirs)

end

mutual

def allFiles (root : RelativePath) : Dir → List RelativePath
  | .mk files dirs => files.map (fun name => root ++ [name]) ++ allFilesIn root dirs

def allFilesIn (root : RelativePath) : List (FileName × Dir) → List RelativePath
  | [] => []
  | (name, dir) :: dirs => allFiles (root ++ [name]) dir ++ allFilesIn root dirs

end

theorem isScanExcluded_append (root : RelativePath) (name : FileName)
    : isScanExcluded excludes (root ++ [name]) = (isScanExcluded excludes root || isScanExcluded excludes [name]) := by
  unfold isScanExcluded
  rw [List.any_append]

theorem files_collect (path : RelativePath) (s : Scan)
    : (collect pattern maxFiles late path s).files = s.files ++ [path].filter (matchesFilePattern pattern) := by
  unfold collect
  cases hmatch : matchesFilePattern pattern path with
  | true =>
    simp only [if_true, List.filter_cons_of_pos hmatch, List.filter_nil]
    split <;> rfl
  | false =>
    rw [List.filter_cons_of_neg (by simp [hmatch]), List.filter_nil, List.append_nil]
    rfl

theorem files_scanFilenames {root : RelativePath} {names : List FileName} {s : Scan}
    (hkept : ∀ name ∈ names, isScanExcluded excludes (root ++ [name]) = false)
    (h : (scanFilenames pattern excludes maxFiles late root names s).truncated = false)
    : (scanFilenames pattern excludes maxFiles late root names s).files =
      s.files ++ (names.map fun name => root ++ [name]).filter (matchesFilePattern pattern) := by
  induction names generalizing s with
  | nil =>
    rw [List.map_nil, List.filter_nil, List.append_nil]
    rfl
  | cons name names ih =>
    have hname := hkept name List.mem_cons_self
    simp only [scanFilenames, hname, Bool.false_eq_true, if_false] at h ⊢
    cases htruncated : (collect pattern maxFiles late (root ++ [name]) s).truncated with
    | true =>
      rw [htruncated, if_pos rfl, htruncated] at h
      cases h
    | false =>
      simp only [htruncated, Bool.false_eq_true, if_false] at h ⊢
      rw [ih (fun n hn => hkept n (List.mem_cons_of_mem _ hn)) h, files_collect, List.map_cons,
        List.append_assoc, ← List.filter_append, List.singleton_append]

mutual

theorem files_scanDir (root : RelativePath) (dir : Dir) (s : Scan) (hroot : isScanExcluded excludes root = false)
    (hkept : ∀ name ∈ dir.names, isScanExcluded excludes [name] = false)
    (h : (scanDir pattern excludes maxFiles late root dir s).truncated = false)
    : (scanDir pattern excludes maxFiles late root dir s).files =
      s.files ++ (allFiles root dir).filter (matchesFilePattern pattern) := by
  match dir with
  | .mk files dirs =>
    have hfiles : ∀ name ∈ files, isScanExcluded excludes (root ++ [name]) = false := by
      intro name hname
      rw [isScanExcluded_append, hroot, Bool.false_or]
      exact hkept name (List.mem_append_left _ hname)
    have hdirs : ∀ name ∈ dirNames dirs, isScanExcluded excludes [name] = false := by
      intro name hname
      exact hkept name (List.mem_append_right _ hname)
    simp only [scanDir] at h ⊢
    split at h
    next hlate => rw [hlate] at h; cases h
    next hlate =>
      rw [if_neg hlate]
      split at h
      next htruncated => rw [htruncated] at h; cases h
      next htruncated =>
        rw [if_neg htruncated]
        rw [Bool.not_eq_true] at htruncated
        rw [files_scanDirs root dirs _ hroot hdirs h, files_scanFilenames hfiles htruncated, allFiles,
          List.filter_append, List.append_assoc]
        rfl

theorem files_scanDirs (root : RelativePath) (dirs : List (FileName × Dir)) (s : Scan)
    (hroot : isScanExcluded excludes root = false)
    (hkept : ∀ name ∈ dirNames dirs, isScanExcluded excludes [name] = false)
    (h : (scanDirs pattern excludes maxFiles late root dirs s).truncated = false)
    : (scanDirs pattern excludes maxFiles late root dirs s).files =
      s.files ++ (allFilesIn root dirs).filter (matchesFilePattern pattern) := by
  match dirs with
  | [] =>
    simp [scanDirs, allFilesIn]
  | (name, dir) :: dirs =>
    have hname : isScanExcluded excludes (root ++ [name]) = false := by
      rw [isScanExcluded_append, hroot, Bool.false_or]
      exact hkept name List.mem_cons_self
    have hdir : ∀ name ∈ dir.names, isScanExcluded excludes [name] = false := by
      intro name hname
      exact hkept name (List.mem_cons_of_mem _ (List.mem_append_left _ hname))
    have hdirs : ∀ name ∈ dirNames dirs, isScanExcluded excludes [name] = false := by
      intro name hname
      exact hkept name (List.mem_cons_of_mem _ (List.mem_append_right _ hname))
    simp only [scanDirs, hname, Bool.false_eq_true, if_false] at h ⊢
    split at h
    next htruncated => rw [htruncated] at h; cases h
    next htruncated =>
      rw [if_neg htruncated]
      rw [Bool.not_eq_true] at htruncated
      rw [files_scanDirs root dirs _ hroot hdirs h, files_scanDir (root ++ [name]) dir s hname hdir htruncated,
        allFilesIn, List.filter_append, List.append_assoc]

end

mutual

theorem ne_nil_of_mem (root : RelativePath) (dir : Dir) (path : RelativePath) (h : path ∈ allFiles root dir)
    : path ≠ [] := by
  match dir with
  | .mk files dirs =>
    rcases List.mem_append.mp h with hmem | hmem
    . obtain ⟨name, -, rfl⟩ := List.mem_map.mp hmem
      simp
    . exact ne_nil_of_mem_dirs root dirs path hmem

theorem ne_nil_of_mem_dirs (root : RelativePath) (dirs : List (FileName × Dir)) (path : RelativePath)
    (h : path ∈ allFilesIn root dirs)
    : path ≠ [] := by
  match dirs with
  | [] => cases h
  | (name, dir) :: dirs =>
    rcases List.mem_append.mp h with hmem | hmem
    . exact ne_nil_of_mem (root ++ [name]) dir path hmem
    . exact ne_nil_of_mem_dirs root dirs path hmem

end

end Files

section Collected

variable {pattern : String} {path : RelativePath} {excludes : List String} {maxFiles : Nat} {late : Nat → Bool}
  {dir : Dir}

theorem matchesFilePattern_whole (hne : pattern ≠ "") (h : ¬Flat pattern.toList)
    (hbelow : ∀ below, pattern.toList ≠ ['*', '*', '/'] ++ below)
    : matchesFilePattern (some pattern) path = Glob.matchText (Glob.pathText (texts path)) pattern.toList := by
  have hprefix : ['*', '*', '/'].isPrefixOf pattern.toList = false := by
    rw [← Bool.not_eq_true, List.isPrefixOf_iff_prefix]
    rintro ⟨below, heq⟩
    exact hbelow below heq.symm
  rw [matchesFilePattern_path hne h, hprefix, Bool.false_and, Bool.or_false]

theorem matchesFilePattern_below (hne : pattern ≠ "") {below : List Char}
    (heq : pattern.toList = ['*', '*', '/'] ++ below)
    : matchesFilePattern (some pattern) path =
      (Glob.matchText (Glob.pathText (texts path)) (['*', '*', '/'] ++ below) ||
        Glob.matchText (Glob.pathText (texts path)) below) := by
  have hflat : ¬Flat pattern.toList := by
    rintro ⟨hslash, -⟩
    exact hslash (by simp [heq])
  rw [matchesFilePattern_path hne hflat, heq]
  rfl

theorem matchesFilePattern_eq_of_fits (hne : pattern ≠ "") (hpath : path ≠ [])
    (h : Fits pattern.toList (texts path))
    : matchesFilePattern (some pattern) path = Glob.matchPath pattern.toList (texts path) := by
  by_cases hflat : Flat pattern.toList
  . exact matchesFilePattern_flat hne hflat hpath
  have hslash := texts_noSlash path
  have hnames := texts_ne_nil hpath
  cases h with
  | flat h => exact absurd h hflat
  | plain h hcount =>
    rw [matchesFilePattern_whole hne hflat h.ne_below, Bool.eq_iff_iff, h.matchPath_iff hslash hnames]
    exact ⟨fun hmatch => ⟨hcount hmatch, hmatch⟩, fun hmatch => hmatch.2⟩
  | anywhere below heq h hcount =>
    rw [matchesFilePattern_below hne heq, heq, Bool.eq_iff_iff, Glob.matchText_anywhere below hslash hnames,
      h.matchPath_anywhere_iff hslash]
    constructor
    . rintro ⟨rest, hrest, hrestNe, hmatch⟩
      exact hcount rest hrest hrestNe hmatch
    . rintro ⟨rest, hrest, hlength, hmatch⟩
      have hrestNe : rest ≠ [] := by
        rw [← List.length_pos_iff, hlength, List.length_pos_iff]
        exact List.splitOn_ne_nil '/' below
      exact ⟨rest, hrest, hrestNe, hmatch⟩
  | untaken h hbelow hunmatched =>
    rw [hunmatched]
    by_cases hprefix : ∃ below, pattern.toList = ['*', '*', '/'] ++ below
    . obtain ⟨below, heq⟩ := hprefix
      rw [matchesFilePattern_below hne heq, ← heq, h, hbelow below heq]
      rfl
    . rw [matchesFilePattern_whole hne hflat (fun below heq => hprefix ⟨below, heq⟩), h]

theorem fits_of_matchesFilePattern_eq (hne : pattern ≠ "") (hpath : path ≠ [])
    (h : matchesFilePattern (some pattern) path = Glob.matchPath pattern.toList (texts path))
    : Fits pattern.toList (texts path) ∨
      ¬Readable pattern.toList ∧ Glob.matchPath pattern.toList (texts path) = true := by
  have hslash := texts_noSlash path
  have hnames := texts_ne_nil hpath
  by_cases hflat : Flat pattern.toList
  . exact .inl (.flat hflat)
  by_cases hreadable : Readable pattern.toList
  . left
    cases hreadable with
    | flat h => exact absurd h hflat
    | plain hplain =>
      rw [matchesFilePattern_whole hne hflat hplain.ne_below] at h
      refine .plain hplain ?_
      intro hmatch
      rw [h] at hmatch
      exact ((hplain.matchPath_iff hslash hnames).mp hmatch).1
    | anywhere below heq hplain =>
      rw [matchesFilePattern_below hne heq, heq, Bool.eq_iff_iff, Glob.matchText_anywhere below hslash hnames,
        hplain.matchPath_anywhere_iff hslash] at h
      refine .anywhere below heq hplain ?_
      intro rest hrest hrestNe hmatch
      exact h.mp ⟨rest, hrest, hrestNe, hmatch⟩
  cases hmatch : Glob.matchPath pattern.toList (texts path) with
  | true => exact .inr ⟨hreadable, rfl⟩
  | false =>
    left
    rw [hmatch, matchesFilePattern_path hne hflat, Bool.or_eq_false_iff] at h
    refine .untaken h.1 ?_ hmatch
    intro below heq
    have hbelow := h.2
    rw [heq] at hbelow
    exact hbelow

def CollectsMatches (pattern : String) (excludes : List String) (maxFiles : Nat) (late : Nat → Bool) (dir : Dir)
    : Prop :=
  (collectScanFiles (some pattern) excludes maxFiles late (.dir dir)).files =
    (allFiles [] dir).filter fun path => Glob.matchPath pattern.toList (texts path)

theorem collectScanFiles_matches (hne : pattern ≠ "")
    (hkept : ∀ name ∈ dir.names, isScanExcluded excludes [name] = false)
    (hlimits : (collectScanFiles (some pattern) excludes maxFiles late (.dir dir)).truncated = false)
    : ((∀ path ∈ allFiles [] dir, Fits pattern.toList (texts path)) →
        CollectsMatches pattern excludes maxFiles late dir) ∧
      (CollectsMatches pattern excludes maxFiles late dir → ∀ path ∈ allFiles [] dir,
        Fits pattern.toList (texts path) ∨
          ¬Readable pattern.toList ∧ Glob.matchPath pattern.toList (texts path) = true) := by
  have hfiles : (collectScanFiles (some pattern) excludes maxFiles late (.dir dir)).files =
      (allFiles [] dir).filter (matchesFilePattern (some pattern)) := by
    exact files_scanDir [] dir _ rfl hkept hlimits
  unfold CollectsMatches
  rw [hfiles]
  constructor
  . intro hfits
    apply List.filter_congr
    intro path hmem
    exact matchesFilePattern_eq_of_fits hne (ne_nil_of_mem [] dir path hmem) (hfits path hmem)
  . intro heq path hmem
    apply fits_of_matchesFilePattern_eq hne (ne_nil_of_mem [] dir path hmem)
    have hiff := congrArg (fun files => path ∈ files) heq
    simp only [List.mem_filter, hmem, true_and, eq_iff_iff] at hiff
    exact Bool.eq_iff_iff.mpr hiff

def src : FileName := ⟨"src", by decide, by decide, by decide, by decide⟩
def pkg : FileName := ⟨"pkg", by decide, by decide, by decide, by decide⟩
def script : FileName := ⟨"a.py", by decide, by decide, by decide, by decide⟩

-- The file `src/pkg/a.py`.
def nested : Dir :=
  .mk [] [(src, .mk [] [(pkg, .mk [script] [])])]

theorem nested_script_collected : CollectsMatches "**/*.py" [".git"] 10 (fun _ => false) nested := by
  apply (collectScanFiles_matches (by decide) (by decide +kernel) (by decide +kernel)).1
  intro path hpath
  have hscript : path = [src, pkg, script] := List.mem_singleton.mp hpath
  rw [hscript]
  refine .anywhere "*.py".toList (by decide +kernel) ⟨by decide +kernel, by decide +kernel⟩ ?_
  intro rest hrest _ _
  exact ⟨["a.py".toList], ⟨["src".toList, "pkg".toList], rfl⟩, by decide +kernel, by decide +kernel⟩

/--
The star goes over the slash.
-/
theorem star_crosses_slash : ¬∀ pattern excludes maxFiles late dir, pattern ≠ "" →
    (∀ name ∈ dir.names, isScanExcluded excludes [name] = false) →
    (collectScanFiles (some pattern) excludes maxFiles late (.dir dir)).truncated = false →
      CollectsMatches pattern excludes maxFiles late dir := by
  intro h
  have heq := h "src/*.py" [".git"] 10 (fun _ => false) nested (by decide) (by decide +kernel) (by decide +kernel)
  exact absurd (congrArg List.length heq) (by decide +kernel)

end Collected

end ScanFiles
end Sandbox
end MemStack
