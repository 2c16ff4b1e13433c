import ContractMigration.Checkout.Host
import ContractMigration.Proofs.Repository.Routes
import ContractMigration.Proofs.Repository.Trees

/-! Texts that are taken in with a tree, and the guard of a checkout. Texts are read at the paths of the tree, where the
backslashes of a name have become slashes, and these paths are not guarded. They pass the guard unless a name has two dots
between its backslashes: its path then takes a step above that no directory of the scan had. -/

namespace ContractMigration

namespace Path

/-! ### Components -/

variable {s path : List Char}

/-- The component leads to a place below the one before it, or stays there. -/
inductive Component.Inner : Component → Prop
  | current : Inner .current
  | name (s : List Char) : Inner (.name s)

theorem Component.isInner_iff {x : Component} : x.isInner = true ↔ x.Inner := by
  constructor
  · intro h
    cases x with
    | root => cases h
    | current => exact .current
    | above => cases h
    | name s => exact .name s
  · rintro (_ | _)
    · rfl
    · rfl

theorem component?_eq_some_iff {x : Component} :
    component? s = some x ↔ (s = dotDot ∧ x = .above) ∨ (IsName s ∧ x = .name s) := by
  rcases segment_cases s with hs | rfl | hs
  · have hnot : s ≠ dotDot ∧ ¬IsName s := by
      rcases hs with rfl | rfl <;> decide
    simp [component?, hs, hnot]
  · have hnot : ¬IsName dotDot := by decide
    rw [component?, if_neg (by decide), if_pos rfl]
    simp [hnot, eq_comm]
  · have hnot : ¬(s = [] ∨ s = dot) := not_or.mpr ⟨hs.1, hs.2.1⟩
    simp [component?, hnot, hs.2.2, hs, eq_comm]

/-- What a path consists of leads below or stays exactly if the path neither begins at the root nor takes a step above. -/
theorem inner_takenApart_iff :
    (∀ x ∈ takenApart path, x.Inner) ↔ ¬['/'] <+: path ∧ dotDot ∉ Text.segments '/' path := by
  have hback : (∀ x ∈ (Text.segments '/' path).filterMap component?, x.Inner) ↔ dotDot ∉ Text.segments '/' path := by
    simp only [List.mem_filterMap, component?_eq_some_iff]
    constructor
    · intro h hmem
      cases h .above ⟨dotDot, hmem, .inl ⟨rfl, rfl⟩⟩
    · rintro h x ⟨s, hs, ⟨rfl, rfl⟩ | ⟨-, rfl⟩⟩
      · exact absurd hs h
      · exact .name s
  rw [takenApart, List.forall_mem_append, hback, ← Text.startsWith_iff]
  refine and_congr_left fun _ => ?_
  split_ifs with hroot hdot
  · exact iff_of_false (fun h => nomatch h _ (List.mem_singleton_self _)) (not_not.mpr hroot)
  · exact iff_of_true (fun x hx => List.mem_singleton.mp hx ▸ .current) hroot
  · exact iff_of_true (fun _ => nofun) hroot

end Path

/-! ### Paths of a scan -/

/-- A name of a place has two dots, and no more, between its backslashes. -/
def StepsUp (p : Place) : Prop := ∃ name ∈ p, Path.dotDot ∈ Text.segments '\\' name.toList

instance (p : Place) : Decidable (StepsUp p) := inferInstanceAs (Decidable (∃ name ∈ p, _))

/-- The files that a scan of the directory at `base` meets. -/
def metFiles (f : Files) (base : Place) (options : ScanOptions) : List (Place × List UInt8) :=
  f.files.filter fun (p, _) => Files.isBelow p base && isMet (RuleSets.of f) options.excludeDirs base p &&
    !(options.excludeSensitive && Glob.isSensitive (p.getLast?.getD ""))

variable {f : Files} {base p : Place} {root path text : String} {options : ScanOptions} {t : RepositoryTree}

/-- The path of a scanned file takes a step above exactly if a name does so with its backslashes. -/
theorem dotDot_mem_relativePath (hnames : ∀ name ∈ p, '/' ∉ name.toList) :
    Path.dotDot ∈ Text.segments '/' (relativePath base p).toList ↔ StepsUp (p.drop base.length) := by
  have hslashed : (relativePath base p).toList =
      Text.joinWith ['/'] ((p.drop base.length).map fun name => Path.slashed name.toList) := by
    rw [relativePath, String.toList_ofList, Text.join, String.toList_ofList, Path.slashed, Text.replaceChar_joinWith,
      List.map_map]
    rfl
  have hdrop : ∀ name ∈ p.drop base.length, '/' ∉ name.toList := fun name h => hnames name (List.mem_of_mem_drop h)
  rw [hslashed]
  generalize p.drop base.length = names at hdrop ⊢
  cases names with
  | nil => simp [StepsUp, Text.joinWith, Text.segments, Path.dotDot]
  | cons name names =>
    rw [Text.segments_joinWith_flatMap '/' (by simp), List.mem_flatMap, StepsUp]
    simp only [List.mem_map, exists_exists_and_eq_and]
    refine exists_congr fun name => and_congr_right fun hname => ?_
    rw [Path.slashed, Text.segments_replaceChar (hdrop name hname)]

theorem exists_scanTree (hroot : f.locate root = .ok base) (hdir : f.isDirectory base = true) :
    ∃ t, scanTree f root options = .ok t := by
  rw [scanTree, scanFiles, hroot]
  simp only [Except.toOption, Option.filter_some, hdir, if_true, Except.map]
  exact ⟨_, rfl⟩

/-- A scan of a directory makes a tree of the files that it meets. -/
theorem exists_entries (hroot : f.locate root = .ok base) (ht : scanTree f root options = .ok t) :
    ∃ entries, t = .ofEntries entries ∧
      ∀ e, e ∈ entries ↔ ∃ x ∈ metFiles f base options, (relativePath base x.1, x.2.length) = e := by
  rw [scanTree, scanFiles, hroot] at ht
  by_cases hdir : f.isDirectory base
  · simp only [Except.toOption, Option.filter_some, hdir, if_true, Except.map, Except.ok.injEq] at ht
    exact ⟨_, ht.symm, fun e => by rw [List.mem_mergeSort, List.mem_map]; rfl⟩
  · simp [Except.toOption, Option.filter_some, hdir, Except.map] at ht

/-- The files with contracts are those that the scan meets, by their cleaned paths. -/
theorem contractFile_met_iff (hroot : f.locate root = .ok base) (ht : scanTree f root options = .ok t) :
    (∃ y ∈ t.contractFiles, y.path = path) ↔ ∃ x ∈ metFiles f base options,
      Category.ofPath (relativePath base x.1) = .contract ∧
        String.ofList (RepositoryTree.cleanPath (relativePath base x.1).toList) = path := by
  obtain ⟨entries, rfl, hentries⟩ := exists_entries hroot ht
  rw [RepositoryTree.exists_contractFile_iff]
  simp only [hentries, RepositoryTree.readsAs_iff]
  constructor
  · rintro ⟨hcategory, _, ⟨x, hx, rfl⟩, rfl⟩
    exact ⟨x, hx, (RepositoryTree.ofPath_cleanPath _).symm.trans hcategory, rfl⟩
  · rintro ⟨x, hx, hcategory, rfl⟩
    exact ⟨(RepositoryTree.ofPath_cleanPath _).trans hcategory, _, ⟨x, hx, rfl⟩, rfl⟩

/-! ### The guard -/

namespace Checkout

variable {c : Checkout}

theorem resolve_eq_ok_iff : c.resolve path = .ok (Files.join c.root path) ↔ staysInside path.toList = true := by
  rw [resolve]
  split_ifs with h <;> simp [h]

/-- Where the guard lets a path through, its text is what is found there. -/
theorem content_eq_ok_iff (h : c.resolve path = .ok (Files.join c.root path)) :
    c.content f path = .ok text ↔ f.text (Files.join c.root path) = .ok text := by
  have hcontent : c.content f path = (f.text (Files.join c.root path)).mapError SystemError.failure := by
    rw [content, h]
    rfl
  rw [hcontent]
  cases f.text (Files.join c.root path) <;> simp [Except.mapError]

theorem staysInside_eq_true_iff {path : List Char} :
    staysInside path = true ↔ path ≠ [] ∧ ∀ x ∈ Path.takenApart path, x.Inner := by
  simp [staysInside, Path.Component.isInner_iff]

/-- By the text alone: the path is not empty, does not begin at the root of the system, and takes no step above. -/
theorem staysInside_iff {path : List Char} :
    staysInside path = true ↔ path ≠ [] ∧ ¬['/'] <+: path ∧ Path.dotDot ∉ Text.segments '/' path :=
  staysInside_eq_true_iff.trans (and_congr_right fun _ => Path.inner_takenApart_iff)

/-- A cleaned path that is not empty passes the guard, if it takes no step above. -/
theorem staysInside_cleanPath {raw : List Char} (hne : RepositoryTree.cleanPath raw ≠ []) :
    staysInside (RepositoryTree.cleanPath raw) = true ↔ Path.dotDot ∉ Text.segments '/' (Path.slashed raw) := by
  have hstart : ¬['/'] <+: RepositoryTree.cleanPath raw := by
    rintro ⟨rest, hrest⟩
    have hhead := Text.head?_trimWhere (p := (· == '/')) (s := Path.slashed raw) '/'
    rw [← RepositoryTree.cleanPath, ← hrest] at hhead
    exact absurd (hhead rfl) (by decide)
  have hparts : Path.dotDot ∈ Text.segments '/' (RepositoryTree.cleanPath raw) ↔
      Path.dotDot ∈ Text.segments '/' (Path.slashed raw) := by
    have hmem : ∀ s, Path.dotDot ∈ Text.parts '/' s ↔ Path.dotDot ∈ Text.segments '/' s := fun s =>
      Text.mem_parts.trans (and_iff_left (by decide))
    rw [← hmem, RepositoryTree.parts_cleanPath, hmem]
  rw [staysInside_iff, and_iff_right hne, and_iff_right hstart, hparts]

/-- A met file with a contract is read at a path that passes the guard, unless one of its names steps up. -/
theorem resolve_met_iff (hnames : ∀ name ∈ p, '/' ∉ name.toList)
    (hcontract : Category.ofPath (relativePath base p) = .contract) :
    let path := String.ofList (RepositoryTree.cleanPath (relativePath base p).toList)
    c.resolve path = .ok (Files.join c.root path) ↔ ¬StepsUp (p.drop base.length) := by
  intro path
  have hpath : path.toList = RepositoryTree.cleanPath (relativePath base p).toList := String.toList_ofList
  have hne : RepositoryTree.cleanPath (relativePath base p).toList ≠ [] := by
    intro hnil
    rw [← RepositoryTree.ofPath_cleanPath, hnil] at hcontract
    exact absurd hcontract (by decide)
  have hslashed : Path.slashed (relativePath base p).toList = (relativePath base p).toList := by
    rw [relativePath, String.toList_ofList]
    exact Text.replaceChar_of_notMem (Text.notMem_replaceChar (by decide) _)
  rw [resolve_eq_ok_iff, hpath, staysInside_cleanPath hne, hslashed, dotDot_mem_relativePath hnames]

end Checkout

/-! ### Texts -/

theorem Sources.mem_insert {s : Sources} (hnew : ∀ e ∈ s, e.1 ≠ path) {e : String × String} :
    e ∈ Sources.insert path text s ↔ e = (path, text) ∨ e ∈ s := by
  induction s with
  | nil => simp [Sources.insert]
  | cons d s ih =>
    obtain ⟨hd, hs⟩ := List.forall_mem_cons.mp hnew
    rw [Sources.insert, if_neg (Ne.symm hd)]
    split_ifs
    · exact List.mem_cons
    · rw [List.mem_cons, ih hs, List.mem_cons, or_left_comm]

/-- Takes in the text of one file, if it can be read. -/
def takeIn (f : Files) (root : String) (s : Sources) (y : FileNode) : Sources :=
  match f.text (Files.join root y.path) with
  | .ok text => Sources.insert y.path text s
  | .error _ => s

theorem mem_takeIn {s : Sources} {y : FileNode} (hnew : ∀ e ∈ s, e.1 ≠ y.path) {e : String × String} :
    e ∈ takeIn f root s y ↔ (y.path = e.1 ∧ f.text (Files.join root e.1) = .ok e.2) ∨ e ∈ s := by
  unfold takeIn
  split
  · next text htext =>
    rw [Sources.mem_insert hnew, Prod.ext_iff]
    refine or_congr_left ⟨fun ⟨hpath, he⟩ => ⟨hpath.symm, ?_⟩, fun ⟨hpath, he⟩ => ⟨hpath.symm, ?_⟩⟩
    · rw [hpath, he, htext]
    · rw [← hpath, htext] at he
      exact (Except.ok.inj he).symm
  · next error herror =>
    refine (or_iff_right ?_).symm
    rintro ⟨hpath, he⟩
    rw [← hpath, herror] at he
    cases he

theorem mem_foldl_takeIn {ys : List FileNode} {s : Sources} (hys : ys.Pairwise fun y z => y.path < z.path)
    (hnew : ∀ y ∈ ys, ∀ e ∈ s, e.1 ≠ y.path) {e : String × String} : e ∈ ys.foldl (takeIn f root) s ↔
      ((∃ y ∈ ys, y.path = e.1) ∧ f.text (Files.join root e.1) = .ok e.2) ∨ e ∈ s := by
  induction ys generalizing s with
  | nil => simp
  | cons y ys ih =>
    obtain ⟨hy, hys⟩ := List.pairwise_cons.mp hys
    obtain ⟨hfirst, hrest⟩ := List.forall_mem_cons.mp hnew
    have hnext : ∀ z ∈ ys, ∀ e ∈ takeIn f root s y, e.1 ≠ z.path := by
      intro z hz e he
      rcases (mem_takeIn hfirst).mp he with ⟨hpath, -⟩ | he
      · exact hpath ▸ (hy z hz).ne
      · exact hrest z hz e he
    rw [List.foldl_cons, ih hys hnext, mem_takeIn hfirst, ← or_assoc, ← or_and_right, List.exists_mem_cons_iff,
      or_comm (a := ∃ z ∈ ys, _)]

/-- What is taken in of files with different paths is the text of each that can be read. -/
theorem mem_contractSources (h : t.contractFiles.Pairwise fun y z => y.path < z.path) {e : String × String} :
    e ∈ contractSources f root t ↔ (∃ y ∈ t.contractFiles, y.path = e.1) ∧ f.text (Files.join root e.1) = .ok e.2 :=
  (mem_foldl_takeIn (s := []) h (fun _ _ => nofun)).trans (or_iff_left List.not_mem_nil)

namespace Files

theorem decode?_utf8 (s : String) : decode? (Digest.utf8 s) = some s := by
  have hbytes : (⟨(Digest.utf8 s).toArray⟩ : ByteArray) = s.toByteArray := by simp [Digest.utf8]
  rw [decode?, hbytes, String.fromUTF8?, dif_pos s.isValidUTF8]
  rfl

/-- A path below the root is followed from there. -/
theorem locate_below (rest : List Char) (hzero : '\x00' ∉ path.toList) (hsize : path.utf8ByteSize ≤ maxPathSize)
    (hpath : path.toList = f.root.toList ++ '/' :: rest) : f.locate path = f.follow f.home (names rest) := by
  have hne : path ≠ "" := by
    rintro rfl
    simp at hpath
  have hroot : path ≠ f.root := by
    rintro rfl
    simp at hpath
  have hstrip : Text.stripStart? (f.root ++ "/").toList path.toList = some rest :=
    Text.stripStart?_eq_some_iff.mpr (by simp [hpath])
  have hcontains : path.contains '\x00' = false := by simpa using hzero
  rw [locate, hcontains, if_neg Bool.false_ne_true, if_neg hne, if_neg (Nat.not_lt.mpr hsize), if_neg hroot, hstrip]

theorem text_of_locate (text : String) (hplace : f.locate path = .ok p) (hbytes : f.files.lookup p = some (Digest.utf8 text)) :
    f.text path = .ok text := by
  have h : f.bytes path = .ok (Digest.utf8 text) := by
    simp [bytes, hplace, hbytes, bind, Except.bind]
  simp [Files.text, h, decode?_utf8, bind, Except.bind]

end Files

namespace Checkout

/-- All texts are read at paths that pass the guard exactly if no name of a file with a contract has two dots between its
backslashes; and then the texts that are taken in are those that guarded reads give. -/
theorem sources_guarded_iff (c : Checkout) (hnames : ∀ x ∈ f.files, ∀ name ∈ x.1, '/' ∉ name.toList)
    (hroot : f.locate c.root = .ok base) (ht : c.tree f = .ok t) :
    ((∀ y ∈ t.contractFiles, c.resolve y.path = .ok (Files.join c.root y.path)) ↔
      ∀ x ∈ metFiles f base c.options, Category.ofPath (relativePath base x.1) = .contract →
        ¬StepsUp (x.1.drop base.length)) ∧
    ((∀ y ∈ t.contractFiles, c.resolve y.path = .ok (Files.join c.root y.path)) →
      ∀ e, e ∈ c.sources f t ↔ (∃ y ∈ t.contractFiles, y.path = e.1) ∧ c.content f e.1 = .ok e.2) := by
  have hmet : ∀ x ∈ metFiles f base c.options, ∀ name ∈ x.1, '/' ∉ name.toList := fun x hx =>
    hnames x (List.mem_of_mem_filter hx)
  constructor
  · constructor
    · intro h x hx hcontract
      obtain ⟨y, hy, hpath⟩ := (contractFile_met_iff hroot ht).mpr ⟨x, hx, hcontract, rfl⟩
      exact (resolve_met_iff (hmet x hx) hcontract).mp (hpath ▸ h y hy)
    · intro h y hy
      obtain ⟨x, hx, hcontract, hpath⟩ := (contractFile_met_iff hroot ht).mp ⟨y, hy, rfl⟩
      exact hpath ▸ (resolve_met_iff (hmet x hx) hcontract).mpr (h x hx hcontract)
  · intro h e
    obtain ⟨entries, rfl, -⟩ := exists_entries hroot ht
    rw [sources, mem_contractSources (RepositoryTree.ascending_contractFiles (RepositoryTree.nodup_paths_files entries))]
    refine and_congr_right fun ⟨y, hy, hpath⟩ => ?_
    exact (content_eq_ok_iff (hpath ▸ h y hy)).symm

/-! ### A file beside a checkout -/

/-- A checkout with these files, and a contract beside it. -/
def besideCheckout (files : List (Place × String)) : Files where
  root := "/work"
  home := ["work"]
  here := []
  files := (["work", "outside.sol"], Digest.utf8 "contract Outside \x7b\x7d") ::
    files.map fun (p, text) => ("work" :: "inner" :: p, Digest.utf8 text)
  directories := []

def innerCheckout : Checkout := ⟨"/work/inner", ⟨[], true⟩⟩

/-- The dots in the second name belong to longer parts of it. -/
def dottedFiles : Files :=
  besideCheckout [(["src", "A.sol"], "contract A \x7b\x7d"), (["src\\a..b\\..c.sol"], "contract B \x7b\x7d")]

/-- The dots in the second name lead out of the checkout. -/
def decoyFiles : Files :=
  besideCheckout [(["src", "A.sol"], "contract A \x7b\x7d"), (["src\\..\\..\\outside.sol"], "contract Decoy \x7b\x7d")]

theorem sources_guarded_dotted :
    (∀ x ∈ dottedFiles.files, ∀ name ∈ x.1, '/' ∉ name.toList) ∧ dottedFiles.locate innerCheckout.root = .ok ["work", "inner"] ∧
      ∃ t, innerCheckout.tree dottedFiles = .ok t ∧ (∃ y ∈ t.contractFiles, y.path = "src/a..b/..c.sol") ∧
        ∀ y ∈ t.contractFiles, innerCheckout.resolve y.path = .ok (Files.join innerCheckout.root y.path) := by
  have hnames : ∀ x ∈ dottedFiles.files, ∀ name ∈ x.1, '/' ∉ name.toList := by decide +kernel
  have hroot : dottedFiles.locate innerCheckout.root = .ok ["work", "inner"] :=
    Files.locate_below "inner".toList (by decide) (by decide) (by decide)
  obtain ⟨t, ht⟩ := exists_scanTree hroot (by decide +kernel)
  have hmet : ∀ x ∈ metFiles dottedFiles ["work", "inner"] innerCheckout.options,
      Category.ofPath (relativePath ["work", "inner"] x.1) = .contract → ¬StepsUp (x.1.drop 2) := by decide +kernel
  have hfile : ∃ x ∈ metFiles dottedFiles ["work", "inner"] innerCheckout.options,
      Category.ofPath (relativePath ["work", "inner"] x.1) = .contract ∧
        String.ofList (RepositoryTree.cleanPath (relativePath ["work", "inner"] x.1).toList) = "src/a..b/..c.sol" := by
    decide +kernel
  exact ⟨hnames, hroot, t, ht, (contractFile_met_iff hroot ht).mpr hfile,
    (sources_guarded_iff innerCheckout hnames hroot ht).1.mpr hmet⟩

/-- A name that a directory may hold has its file read outside of the checkout, at a path that the guard refuses. -/
theorem decoy_leads_out :
    (∀ x ∈ decoyFiles.files, ∀ name ∈ x.1, name ≠ "" ∧ name ≠ "." ∧ name ≠ ".." ∧ '/' ∉ name.toList) ∧
      ∃ t, innerCheckout.tree decoyFiles = .ok t ∧ (∃ y ∈ t.contractFiles, y.path = "src/../../outside.sol") ∧
        innerCheckout.resolve "src/../../outside.sol" =
          .error (.invalidRepository ("path " ++ Text.quoted "src/../../outside.sol" ++ " is outside the repository")) ∧
        ("src/../../outside.sol", "contract Outside \x7b\x7d") ∈ innerCheckout.sources decoyFiles t := by
  have hroot : decoyFiles.locate innerCheckout.root = .ok ["work", "inner"] :=
    Files.locate_below "inner".toList (by decide) (by decide) (by decide)
  obtain ⟨t, ht⟩ := exists_scanTree hroot (by decide +kernel)
  have hmet : ∃ x ∈ metFiles decoyFiles ["work", "inner"] innerCheckout.options,
      Category.ofPath (relativePath ["work", "inner"] x.1) = .contract ∧
        String.ofList (RepositoryTree.cleanPath (relativePath ["work", "inner"] x.1).toList) = "src/../../outside.sol" := by
    decide +kernel
  have hfile := (contractFile_met_iff hroot ht).mpr hmet
  have hjoin : Files.join innerCheckout.root "src/../../outside.sol" = "/work/inner/src/../../outside.sol" := by
    decide +kernel
  have hplace : decoyFiles.locate "/work/inner/src/../../outside.sol" = .ok ["work", "outside.sol"] :=
    (Files.locate_below "inner/src/../../outside.sol".toList (by decide) (by decide) (by decide)).trans
      (by decide +kernel)
  have htext := Files.text_of_locate "contract Outside \x7b\x7d" hplace rfl
  have hrefused : staysInside "src/../../outside.sol".toList ≠ true := by decide +kernel
  refine ⟨by decide +kernel, t, ht, hfile, if_neg hrefused, ?_⟩
  obtain ⟨entries, rfl, -⟩ := exists_entries hroot ht
  exact (mem_contractSources (RepositoryTree.ascending_contractFiles (RepositoryTree.nodup_paths_files entries))).mpr
    ⟨hfile, hjoin ▸ htext⟩

end Checkout

end ContractMigration
