import ContractMigration.Proofs.Text.Blocks
import ContractMigration.Repository.Key

/-! Keys in print. A key prints as `owner/name` and as its address on the web, and both are read back as the key itself
unless its name ends in `.git`. That ending is never taken for a part of the name, so such a key is read as the one
without the ending, if that is a key at all. -/

namespace ContractMigration.Key

open Text (Edged)

variable {owner name : List Char}

/-! ### Characters of keys -/

theorem isBlank_of_isKeyChar {c : Char} (h : isKeyChar c = true) : Text.isBlank c = false := by
  simp only [isKeyChar, Bool.or_eq_true, beq_iff_eq] at h
  rcases h with ((h | rfl) | rfl) | rfl
  · exact Text.isBlank_of_isAlphanum h
  · decide
  · decide
  · decide

theorem isSegment_iff {s : List Char} :
    isSegment s = true ↔ s ≠ [] ∧ s ≠ ['.'] ∧ s ≠ ['.', '.'] ∧ ∀ c ∈ s, isKeyChar c = true := by
  simp [isSegment, and_assoc]

theorem notMem_of_isSegment {s : List Char} {c : Char} (h : isSegment s = true) (hc : isKeyChar c = false) : c ∉ s :=
  fun hmem => by simp [(isSegment_iff.mp h).2.2.2 c hmem] at hc

theorem edged_of_isSegment {s : List Char} (h : isSegment s = true) : Edged s where
  ne_nil := (isSegment_iff.mp h).1
  head c hc := isBlank_of_isKeyChar ((isSegment_iff.mp h).2.2.2 c (List.mem_of_mem_head? hc))
  last c hc := isBlank_of_isKeyChar ((isSegment_iff.mp h).2.2.2 c (List.mem_of_getLast? hc))

theorem ofParts_eq_ok_iff {owner name : String} {k : Key} :
    ofParts owner name = .ok k ↔ isSegment owner.toList = true ∧ isSegment name.toList = true ∧ k = ⟨owner, name⟩ := by
  rw [ofParts, ← and_assoc, ← Bool.and_eq_true]
  split_ifs with h
  · rw [Except.ok.injEq, and_iff_right h, eq_comm]
  · exact iff_of_false nofun fun hk => h hk.1

/-! ### The path of a key -/

/-- Owner and name with a slash between them. -/
def path (owner name : List Char) : List Char := owner ++ '/' :: name

/-- The name without one `.git` at its end. -/
def stem (name : List Char) : List Char := (Text.stripEnd? ".git".toList name).getD name

theorem stem_of_not_suffix (h : ¬".git".toList <:+ name) : stem name = name := by
  rw [stem, Text.stripEnd?_eq_none_iff.mpr h, Option.getD_none]

theorem stem_append (base : List Char) : stem (base ++ ".git".toList) = base := by
  rw [stem, Text.stripEnd?_eq_some_iff.mpr rfl, Option.getD_some]

theorem stem_subset (name : List Char) : stem name ⊆ name := by
  by_cases h : ".git".toList <:+ name
  · obtain ⟨base, rfl⟩ := h
    rw [stem_append]
    exact List.subset_append_left _ _
  · rw [stem_of_not_suffix h]
    exact List.Subset.refl name

section

variable (howner : isSegment owner = true) (hname : isSegment name = true)

include howner hname in
theorem edged_path : Edged (path owner name) :=
  have hback : Edged ('/' :: name) :=
    (edged_of_isSegment hname).append (List.cons_ne_nil '/' []) (by rintro _ ⟨⟩; decide)
  hback.append (isSegment_iff.mp howner).1 (edged_of_isSegment howner).head

include howner hname in
theorem not_infix_path {pat : List Char} {c : Char} (hpat : c ∈ pat) (hc : isKeyChar c = false) (hslash : c ≠ '/') :
    ¬pat <:+: path owner name := by
  intro h
  have hmem : c ∈ path owner name := h.subset hpat
  simp [path, notMem_of_isSegment howner hc, notMem_of_isSegment hname hc, hslash] at hmem

include howner hname in
/-- A path is no address: those have a colon or an at sign in front. -/
theorem pathPart?_path : pathPart? (path owner name) = some (path owner name) := by
  have hstart : ∀ {p : List Char} {c : Char}, c ∈ p → isKeyChar c = false → c ≠ '/' →
      Text.stripStart? p (path owner name) = none := fun hp hc hslash =>
    Text.stripStart?_eq_none_iff.mpr fun h => not_infix_path howner hname hp hc hslash h.isInfix
  have hcontains : Text.contains "://".toList (path owner name) = false := by
    rw [← Bool.not_eq_true, Text.contains_iff]
    exact not_infix_path howner hname (c := ':') (by decide) (by decide) (by decide)
  have hsecure := hstart (p := "https://".toList) (c := ':') (by decide) (by decide) (by decide)
  have hplain := hstart (p := "http://".toList) (c := ':') (by decide) (by decide) (by decide)
  have hshell := hstart (p := "git@".toList) (c := '@') (by decide) (by decide) (by decide)
  rw [pathPart?, hsecure, hplain, hshell, hcontains]
  rfl

theorem pathPart?_address (owner name : List Char) :
    pathPart? ("https://github.com/".toList ++ path owner name) = some (path owner name) :=
  rfl

theorem suffix_path_iff (owner name : List Char) :
    ".git".toList <:+ path owner name ↔ ".git".toList <:+ name := by
  have hslash : '/' ∉ ".git".toList := by decide
  have hback : '/' :: name <:+ path owner name := List.suffix_append owner _
  refine ⟨fun h => ?_, fun h => h.trans ((List.suffix_cons '/' name).trans hback)⟩
  rcases List.suffix_or_suffix_of_suffix h hback with h | h
  · exact (List.suffix_cons_iff.mp h).resolve_left fun he => hslash (he ▸ List.mem_cons_self)
  · exact absurd (h.subset List.mem_cons_self) hslash

include hname in
theorem bare_path (owner : List Char) : bare (path owner name) = path owner (stem name) := by
  have hslash : '/' ∉ name := notMem_of_isSegment hname (by decide)
  have hslashes : Text.dropWhileEnd (· == '/') (path owner name) = path owner name := by
    refine List.rdropWhile_eq_self_iff.mpr fun hne hlast => ?_
    have hname := (isSegment_iff.mp hname).1
    have hmem : (path owner name).getLast hne ∈ name := by
      simp only [path, List.getLast_append_of_ne_nil _ (List.cons_ne_nil '/' name), List.getLast_cons hname]
      exact List.getLast_mem hname
    exact hslash (beq_iff_eq.mp hlast ▸ hmem)
  rw [bare, hslashes]
  by_cases h : ".git".toList <:+ name
  · obtain ⟨base, rfl⟩ := h
    have hpath : path owner (base ++ ".git".toList) = path owner base ++ ".git".toList := by simp [path]
    rw [hpath, Text.stripEnd?_eq_some_iff.mpr rfl, stem_append, Option.getD_some]
  · rw [Text.stripEnd?_eq_none_iff.mpr (mt (suffix_path_iff owner name).mp h), stem_of_not_suffix h, Option.getD_none]

include howner hname in
theorem segments_path : Text.segments '/' (path owner (stem name)) = [owner, stem name] := by
  have hslash : isKeyChar '/' = false := by decide
  rw [path, Text.segments_eq_splitOn, List.splitOn_append_cons_self,
    List.splitOn_eq_singleton (notMem_of_isSegment howner hslash),
    List.splitOn_eq_singleton fun h => notMem_of_isSegment hname hslash (stem_subset name h)]
  rfl

include howner hname in
/-- In print, owner and stem of the name are read. -/
theorem parse?_of_pathPart? {s : List Char} (hs : Edged s) (hpath : pathPart? s = some (path owner name)) :
    parse? s =
      if isSegment (stem name) then some ⟨String.ofList owner, String.ofList (stem name)⟩ else none := by
  simp only [parse?, hs.trimChars_eq, hpath, Option.bind_eq_bind, Option.bind_some, bare_path hname,
    segments_path howner hname, howner, Bool.true_and]

end

/-! ### Reading a key back -/

/-- The texts that a key prints as. -/
def printed (k : Key) : List String := [k.text, k.url]

theorem parse_of_mem_printed {owner name : String} {k : Key} (hk : ofParts owner name = .ok k) {t : String}
    (ht : t ∈ k.printed) :
    parse t = if isSegment (stem name.toList) then .ok ⟨owner, String.ofList (stem name.toList)⟩
      else .error (.invalidRepository t) := by
  obtain ⟨howner, hname, rfl⟩ := ofParts_eq_ok_iff.mp hk
  have hedged := edged_path howner hname
  have hparse : parse? t.toList = if isSegment (stem name.toList) then
      some ⟨String.ofList owner.toList, String.ofList (stem name.toList)⟩ else none := by
    have hslash : "/".toList = ['/'] := rfl
    rcases List.mem_pair.mp ht with rfl | rfl
    · have htext : (Key.mk owner name).text.toList = path owner.toList name.toList := by
        simp only [text, path, String.toList_append, hslash, List.append_assoc, List.singleton_append]
      rw [htext]
      exact parse?_of_pathPart? howner hname hedged (pathPart?_path howner hname)
    · have hurl : (Key.mk owner name).url = "https://github.com/" ++ owner ++ "/" ++ name := rfl
      have haddress : (Key.mk owner name).url.toList = "https://github.com/".toList ++ path owner.toList name.toList := by
        simp only [hurl, path, String.toList_append, hslash, List.append_assoc, List.singleton_append]
      have hfront : Edged ("https://github.com/".toList ++ path owner.toList name.toList) :=
        hedged.append (by decide) (by rintro _ ⟨⟩; decide)
      rw [haddress]
      exact parse?_of_pathPart? howner hname hfront (pathPart?_address owner.toList name.toList)
  rw [parse, hparse, String.ofList_toList]
  split_ifs <;> rfl

theorem parse_printed {owner name : String} {k : Key} (hk : ofParts owner name = .ok k)
    (hgit : ¬".git".toList <:+ name.toList) {t : String} (ht : t ∈ k.printed) : parse t = .ok k := by
  obtain ⟨-, hname, hkey⟩ := ofParts_eq_ok_iff.mp hk
  rw [parse_of_mem_printed hk ht, stem_of_not_suffix hgit, if_pos hname, String.ofList_toList, hkey]

theorem parse_printed_of_git {owner base : String} {k : Key} (hk : ofParts owner (base ++ ".git") = .ok k) {t : String}
    (ht : t ∈ k.printed) :
    parse t = if isSegment base.toList then .ok ⟨owner, base⟩ else .error (.invalidRepository t) := by
  rw [parse_of_mem_printed hk ht, String.toList_append, stem_append, String.ofList_toList]

/-- Both texts that a key prints as are read back as the key exactly if its name does not end in `.git`, so two keys whose
names do not are never read alike. A name that does is read without the ending, or refused if what remains is no segment. -/
theorem printed_read_back (owner name : String) (k : Key) (hk : ofParts owner name = .ok k) :
    (∀ t ∈ k.printed, parse t = .ok k ↔ ¬".git".toList <:+ name.toList) ∧
    (∀ base, name = base ++ ".git" → ∀ t ∈ k.printed, parse t =
      if isSegment base.toList then .ok ⟨owner, base⟩ else .error (.invalidRepository t)) ∧
    (¬".git".toList <:+ name.toList → ∀ owner' name' k', ofParts owner' name' = .ok k' → ¬".git".toList <:+ name'.toList →
      ∀ t ∈ k.printed, ∀ t' ∈ k'.printed, parse t = parse t' → k = k') := by
  refine ⟨fun t ht => ⟨fun hparse hgit => ?cut, fun hgit => parse_printed hk hgit ht⟩,
    fun base hbase t ht => parse_printed_of_git (hbase ▸ hk) ht, fun hgit owner' name' k' hk' hgit' t ht t' ht' heq => ?apart⟩
  case cut =>
    obtain ⟨base, hbase⟩ := hgit
    have hname : name = String.ofList base ++ ".git" := String.toList_inj.mp (by simp [← hbase])
    rw [parse_printed_of_git (hname ▸ hk) ht, (ofParts_eq_ok_iff.mp hk).2.2] at hparse
    split_ifs at hparse
    have hsame : String.ofList base = name := congrArg Key.name (Except.ok.inj hparse)
    simp [← hsame] at hbase
  case apart =>
    rw [parse_printed hk hgit ht, parse_printed hk' hgit' ht'] at heq
    exact Except.ok.inj heq

/-- The name has dots at its end and `.git` within, and is read back. -/
theorem printed_read_back_dots :
    ofParts "acme-labs" "vaults.git.." = .ok ⟨"acme-labs", "vaults.git.."⟩ ∧
      ¬".git".toList <:+ "vaults.git..".toList ∧
      parse "acme-labs/vaults.git.." = .ok ⟨"acme-labs", "vaults.git.."⟩ ∧
      parse "https://github.com/acme-labs/vaults.git.." = .ok ⟨"acme-labs", "vaults.git.."⟩ := by
  have hgit : ¬".git".toList <:+ "vaults.git..".toList := by decide
  have hback := (printed_read_back "acme-labs" "vaults.git.." ⟨"acme-labs", "vaults.git.."⟩ rfl).1
  exact ⟨rfl, hgit, (hback _ (.head _)).mpr hgit, (hback _ (.tail _ (.head _))).mpr hgit⟩

/-- A key whose name ends in `.git` is read from both of its texts as another key. -/
theorem printed_with_git :
    let k : Key := ⟨"acme", "vaults.git"⟩
    let other : Key := ⟨"acme", "vaults"⟩
    ofParts "acme" "vaults.git" = .ok k ∧ ofParts "acme" "vaults" = .ok other ∧ k ≠ other ∧
      parse k.text = .ok other ∧ parse k.url = .ok other ∧ parse other.text = .ok other :=
  ⟨rfl, rfl, by decide, rfl, rfl, rfl⟩

end ContractMigration.Key
