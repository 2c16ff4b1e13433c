import ContractMigration.Proofs.Repository.Spelling
import Mathlib.Data.Option.Basic

/-! The spellings of an identifier. A repository is named by its path, by an address on any host, or by the short form for
secure shells, and all of them are read as what the path alone is read as. White space around an identifier and slashes
behind it are not read. -/

namespace ContractMigration.Key

open Text (Edged isBlank dropWhileEnd trimChars)

variable {p s front slashes : List Char} {k : Key}

/-! ### What a path names -/

/-- The key that the path part of an identifier names, if any. -/
def named? (path : List Char) : Option Key :=
  match Text.segments '/' (bare path) with
  | [owner, name] =>
    if isSegment owner && isSegment name then some ⟨String.ofList owner, String.ofList name⟩ else none
  | _ => none

theorem parse?_eq (s : List Char) : parse? s = (pathPart? (trimChars s)).bind named? := rfl

/-- A path names a key by two segments with a slash between them. -/
theorem named?_eq_some_iff : named? p = some k ↔
    bare p = k.owner.toList ++ '/' :: k.name.toList ∧ isSegment k.owner.toList = true ∧ isSegment k.name.toList = true := by
  have hjoin := Text.joinWith_segments '/' (bare p)
  unfold named?
  constructor
  · intro h
    split at h
    · next owner name hsegments =>
      rw [hsegments] at hjoin
      split_ifs at h with hvalid
      obtain rfl := Option.some.inj h
      rw [Bool.and_eq_true] at hvalid
      simp only [String.toList_ofList]
      exact ⟨by rw [← hjoin]; simp [Text.joinWith], hvalid⟩
    · cases h
  · rintro ⟨hbare, howner, hname⟩
    have hslash : isKeyChar '/' = false := by decide
    have hsegments : Text.segments '/' (bare p) = [k.owner.toList, k.name.toList] := by
      rw [hbare, Text.segments_eq_splitOn, List.splitOn_append_cons_self,
        List.splitOn_eq_singleton (notMem_of_isSegment howner hslash),
        List.splitOn_eq_singleton (notMem_of_isSegment hname hslash)]
      rfl
    simp [hsegments, howner, hname]

theorem ofParts_of_named? (h : named? p = some k) : ofParts k.owner k.name = .ok k := by
  obtain ⟨-, howner, hname⟩ := named?_eq_some_iff.mp h
  exact ofParts_eq_ok_iff.mpr ⟨howner, hname, rfl⟩

/-- Slashes behind a path are not read. -/
theorem named?_append_slashes (h : ∀ c ∈ slashes, c = '/') (path : List Char) : named? (path ++ slashes) = named? path := by
  have hdrop : dropWhileEnd (· == '/') (path ++ slashes) = dropWhileEnd (· == '/') path :=
    Text.dropWhileEnd_append_of_all (by simpa using h) path
  rw [named?, named?, bare, bare, hdrop]

theorem named?_slashes (h : ∀ c ∈ slashes, c = '/') : named? slashes = none := by
  rw [← List.nil_append slashes, named?_append_slashes h]
  rfl

/-- A path with a colon at its end names no key. -/
theorem named?_colon (front : List Char) (h : ∀ c ∈ slashes, c = '/') : named? (front ++ ':' :: slashes) = none := by
  have hcolon : bare (front ++ [':']) = front ++ [':'] := by
    have hdrop : dropWhileEnd (· == '/') (front ++ [':']) = front ++ [':'] :=
      List.rdropWhile_concat_neg (· == '/') front ':' (by decide)
    have hgit : ¬".git".toList <:+ front ++ [':'] := by
      rintro ⟨base, hbase⟩
      have hlast := congrArg List.getLast? hbase
      rw [List.getLast?_concat, List.getLast?_append_of_ne_nil _ (by decide)] at hlast
      exact absurd hlast (by decide)
    rw [bare, hdrop, Text.stripEnd?_eq_none_iff.mpr hgit]
    rfl
  rw [← List.singleton_append, ← List.append_assoc, named?_append_slashes h, Option.eq_none_iff_forall_ne_some]
  intro k hk
  obtain ⟨hbare, howner, hname⟩ := named?_eq_some_iff.mp hk
  have hmem : ':' ∈ k.owner.toList ++ '/' :: k.name.toList := by
    rw [← hbare, hcolon]
    exact List.mem_concat_self
  simp [notMem_of_isSegment howner (c := ':') (by decide), notMem_of_isSegment hname (c := ':') (by decide)] at hmem

/-! ### Finding the path -/

/-- The path part of an identifier stands at its end. -/
theorem suffix_of_pathPart? (h : pathPart? s = some p) : p <:+ s := by
  have hbehind : ∀ {start : List Char} {sep : Char} {rest : List Char}, s = start ++ rest →
      (Text.cutAt? sep rest).map Prod.snd = some p → p <:+ s := by
    intro start sep rest hs hcut
    obtain ⟨⟨host, _⟩, hhost, rfl⟩ := Option.map_eq_some_iff.mp hcut
    obtain ⟨rfl, -⟩ := Text.cutAt?_eq_some_iff.mp hhost
    exact ⟨start ++ host ++ [sep], by simp [hs]⟩
  unfold pathPart? at h
  split at h
  · next rest hweb =>
    rcases (Option.orElse_eq_some _ _ _).mp hweb with hweb | ⟨-, hweb⟩
    · exact hbehind (Text.stripStart?_eq_some_iff.mp hweb) h
    · exact hbehind (Text.stripStart?_eq_some_iff.mp hweb) h
  · split at h
    · next rest hshell => exact hbehind (Text.stripStart?_eq_some_iff.mp hshell) h
    · split_ifs at h
      exact Option.some.inj h ▸ List.suffix_refl s

/-- A text that is read as a path: it begins neither with white space nor like the short form, and there is no `://` in it,
so that it is no address either. -/
structure Pathlike (p : List Char) : Prop where
  head : ∀ c ∈ p.head?, isBlank c = false
  shell : ¬"git@".toList <+: p
  address : ¬"://".toList <:+: p

theorem pathPart?_of_pathlike (h : Pathlike p) : pathPart? p = some p := by
  have hstart : ∀ pat, "://".toList <:+: pat → Text.stripStart? pat p = none := fun _ hpat =>
    Text.stripStart?_eq_none_iff.mpr fun hp => h.address (hpat.trans hp.isInfix)
  have hcontains : Text.contains "://".toList p = false := by
    rw [← Bool.not_eq_true, Text.contains_iff]
    exact h.address
  have hsecure := hstart "https://".toList ⟨"https".toList, [], rfl⟩
  have hplain := hstart "http://".toList ⟨"http".toList, [], rfl⟩
  rw [pathPart?, hsecure, hplain, Text.stripStart?_eq_none_iff.mpr h.shell, hcontains]
  rfl

theorem Pathlike.of_prefix {q : List Char} (h : Pathlike p) (hq : q <+: p) : Pathlike q where
  head c hc := h.head c (by obtain ⟨r, rfl⟩ := hq; rw [List.head?_append, Option.mem_def.mp hc]; rfl)
  shell hshell := h.shell (hshell.trans hq)
  address haddress := h.address (haddress.trans hq.isInfix)

/-- The spellings of a path. A host is any text without the mark that ends it. -/
inductive Spells (p : String) : String → Prop
  | bare : Spells p p
  | secure (host : String) (h : '/' ∉ host.toList) : Spells p ("https://" ++ host ++ "/" ++ p)
  | plain (host : String) (h : '/' ∉ host.toList) : Spells p ("http://" ++ host ++ "/" ++ p)
  | shell (host : String) (h : ':' ∉ host.toList) : Spells p ("git@" ++ host ++ ":" ++ p)

/-- What stands in front of a path for it to be found. -/
structure Introduces (front : List Char) : Prop where
  edged : Edged front
  finds : ∀ p, pathPart? (front ++ p) = some p

theorem Spells.bare_or_introduced {p id : String} (h : Spells p id) :
    id = p ∨ ∃ front, Introduces front ∧ id.toList = front ++ p.toList := by
  have hcut : ∀ {sep : Char} {host : List Char}, sep ∉ host → ∀ p : List Char,
      (Text.cutAt? sep (host ++ [sep] ++ p)).map Prod.snd = some p := by
    intro sep host hsep p
    rw [Text.cutAt?_eq_some_iff.mpr ⟨by rw [List.append_assoc]; rfl, hsep⟩]
    rfl
  cases h with
  | bare => exact .inl rfl
  | secure host h =>
    exact .inr ⟨"https://".toList ++ host.toList ++ ['/'],
      ⟨Text.edged_of_ends (a := 'h') (by decide) (by decide) _, hcut h⟩, by simp [String.toList_append]⟩
  | plain host h =>
    exact .inr ⟨"http://".toList ++ host.toList ++ ['/'],
      ⟨Text.edged_of_ends (a := 'h') (by decide) (by decide) _, hcut h⟩, by simp [String.toList_append]⟩
  | shell host h =>
    exact .inr ⟨"git@".toList ++ host.toList ++ [':'],
      ⟨Text.edged_of_ends (a := 'g') (by decide) (by decide) _, hcut h⟩, by simp [String.toList_append]⟩

/-! ### All spellings are read alike -/

theorem parse?_introduced (h : Introduces front) (p : List Char) :
    parse? (front ++ p) = named? (dropWhileEnd isBlank p) := by
  have htrim : trimChars (front ++ p) = front ++ dropWhileEnd isBlank p := by
    rw [trimChars, Text.dropBlank_of_head (by rw [List.head?_append_of_ne_nil _ h.edged.ne_nil]; exact h.edged.head),
      Text.dropWhileEnd_append h.edged.last]
  rw [parse?_eq, htrim, h.finds]
  rfl

theorem parse?_of_pathlike (h : Pathlike p) : parse? p = named? (dropWhileEnd isBlank p) := by
  have htrim : trimChars p = dropWhileEnd isBlank p := by rw [trimChars, Text.dropBlank_of_head h.head]
  have hpath : Pathlike (dropWhileEnd isBlank p) := h.of_prefix (List.rdropWhile_prefix isBlank p)
  rw [parse?_eq, htrim, pathPart?_of_pathlike hpath]
  rfl

/-- Where slashes behind a text make an address of it, a colon stood at its end. -/
theorem exists_colon (h : "://".toList <:+: p ++ slashes) (hp : ¬"://".toList <:+: p) (hslashes : ∀ c ∈ slashes, c = '/') :
    ∃ front rest, p = front ++ ':' :: rest ∧ ∀ c ∈ rest, c = '/' := by
  have hmark : "://".toList = [':', '/', '/'] := rfl
  rw [hmark] at h hp
  obtain ⟨u, v, h⟩ := h
  rw [List.append_assoc, List.append_eq_append_iff] at h
  obtain ⟨x, rfl, hx⟩ | ⟨x, rfl, hx⟩ := h
  · -- the mark begins in the text, and its slashes do not both belong to the text
    match x with
    | [] =>
      rw [List.nil_append] at hx
      exact absurd (hslashes ':' (hx ▸ List.mem_cons_self)) (by decide)
    | [c] =>
      obtain rfl : ':' = c := (List.cons.inj hx).1
      exact ⟨u, [], rfl, nofun⟩
    | [c, d] =>
      obtain ⟨rfl, rfl, -⟩ : ':' = c ∧ '/' = d ∧ _ := by simpa using hx
      exact ⟨u, ['/'], rfl, by simp⟩
    | c :: d :: e :: x =>
      obtain ⟨rfl, rfl, rfl, -⟩ : ':' = c ∧ '/' = d ∧ '/' = e ∧ _ := by simpa using hx
      exact absurd ⟨u, x, by simp⟩ hp
  · exact absurd (hslashes ':' (by simp [hx])) (by decide)

section

variable (hslashes : ∀ c ∈ slashes, c = '/')

include hslashes in
theorem notBlank_of_slashes : ∀ c ∈ slashes, isBlank c = false := by
  intro c hc
  rw [hslashes c hc]
  decide

include hslashes in
theorem dropWhileEnd_append_slashes (hlast : ∀ c ∈ p.getLast?, isBlank c = false) :
    dropWhileEnd isBlank (p ++ slashes) = p ++ slashes := by
  rw [Text.dropWhileEnd_append hlast,
    Text.dropWhileEnd_of_last fun c hc => notBlank_of_slashes hslashes c (List.mem_of_getLast? hc)]

include hslashes in
theorem prefix_of_prefix_append_slashes {pat : List Char} (hpat : '/' ∉ pat) (h : pat <+: p ++ slashes) : pat <+: p := by
  rcases List.prefix_or_prefix_of_prefix h (List.prefix_append p slashes) with hp | ⟨rest, rfl⟩
  · exact hp
  · rw [List.prefix_append_right_inj] at h
    cases rest with
    | nil => simp
    | cons c rest =>
      obtain rfl := hslashes c (h.subset List.mem_cons_self)
      exact absurd (List.mem_append_right p List.mem_cons_self) hpat

include hslashes in
/-- An identifier with a colon at its end is refused, also where it is an address. -/
theorem parse?_colon (hhead : ∀ c ∈ (front ++ ':' :: slashes).head?, isBlank c = false) :
    parse? (front ++ ':' :: slashes) = none := by
  have hback : dropWhileEnd isBlank (front ++ [':'] ++ slashes) = front ++ [':'] ++ slashes :=
    dropWhileEnd_append_slashes hslashes (by rw [List.getLast?_concat]; rintro _ ⟨⟩; decide)
  rw [List.append_assoc, List.singleton_append] at hback
  rw [parse?_eq, trimChars, Text.dropBlank_of_head hhead, hback, Option.bind_eq_none_iff]
  intro path hpath
  -- the path begins behind the colon, where only slashes stand, or it has the colon at its end
  rcases List.suffix_or_suffix_of_suffix (suffix_of_pathPart? hpath) (List.suffix_append front _) with hpath | ⟨front', rfl⟩
  · rcases List.suffix_cons_iff.mp hpath with rfl | hpath
    · exact named?_colon [] hslashes
    · exact named?_slashes fun c hc => hslashes c (hpath.subset hc)
  · exact named?_colon front' hslashes

include hslashes in
/-- Slashes behind a text make no difference, also where it is an address with them. -/
theorem parse?_append_slashes (h : Pathlike p) (hlast : ∀ c ∈ p.getLast?, isBlank c = false) :
    parse? (p ++ slashes) = named? p := by
  have hhead : ∀ c ∈ (p ++ slashes).head?, isBlank c = false := by
    intro c hc
    rw [List.head?_append, Option.mem_def, Option.or_eq_some_iff] at hc
    exact hc.elim (h.head c) fun hc => notBlank_of_slashes hslashes c (List.mem_of_mem_head? hc.2)
  by_cases haddress : "://".toList <:+: p ++ slashes
  · obtain ⟨front, rest, rfl, hrest⟩ := exists_colon haddress h.address hslashes
    rw [List.append_assoc, List.cons_append] at hhead ⊢
    rw [named?_colon front hrest,
      parse?_colon (fun c hc => (List.mem_append.mp hc).elim (hrest c) (hslashes c)) hhead]
  · have hpath : Pathlike (p ++ slashes) :=
      ⟨hhead, fun hshell => h.shell (prefix_of_prefix_append_slashes hslashes (by decide) hshell), haddress⟩
    rw [parse?_of_pathlike hpath, dropWhileEnd_append_slashes hslashes hlast, named?_append_slashes hslashes]

end

/-- Every spelling of a path is read as what the path names without white space at its end, and slashes behind it make no
difference unless they stand behind white space. -/
theorem parse?_of_spells {p slashes id : String} (hp : Pathlike p.toList) (hslashes : ∀ c ∈ slashes.toList, c = '/')
    (hlast : slashes = "" ∨ ∀ c ∈ p.toList.getLast?, isBlank c = false) (h : Spells (p ++ slashes) id) :
    parse? id.toList = named? (dropWhileEnd isBlank p.toList) := by
  rcases h.bare_or_introduced with rfl | ⟨front, hfront, hid⟩
  · rw [String.toList_append]
    rcases hlast with rfl | hlast
    · rw [String.toList_empty, List.append_nil, parse?_of_pathlike hp]
    · rw [parse?_append_slashes hslashes hp hlast, Text.dropWhileEnd_of_last hlast]
  · rw [hid, parse?_introduced hfront, String.toList_append]
    rcases hlast with rfl | hlast
    · rw [String.toList_empty, List.append_nil]
    · rw [dropWhileEnd_append_slashes hslashes hlast, named?_append_slashes hslashes, Text.dropWhileEnd_of_last hlast]

/-! ### The key of a path -/

/-- A path names a key: it is the text of the key, perhaps with `.git` behind it, then slashes, then white space. One `.git`
at the end of a path is never a part of the name. -/
def Names (p : List Char) (k : Key) : Prop :=
  ofParts k.owner k.name = .ok k ∧ ∃ slashes blanks, (∀ c ∈ slashes, c = '/') ∧ (∀ c ∈ blanks, isBlank c = true) ∧
    (p = k.text.toList ++ ".git".toList ++ slashes ++ blanks ∨
      ¬".git".toList <:+ k.name.toList ∧ p = k.text.toList ++ slashes ++ blanks)

theorem toList_text (k : Key) : k.text.toList = k.owner.toList ++ '/' :: k.name.toList := by
  simp [text, String.toList_append]

/-- What is left of a path without slashes at its end, and without one `.git` if that is there. -/
theorem bare_cases (path : List Char) : ∃ slashes, (∀ c ∈ slashes, c = '/') ∧
    (path = bare path ++ ".git".toList ++ slashes ∨ ¬".git".toList <:+ bare path ∧ path = bare path ++ slashes) := by
  obtain ⟨slashes, hpath, hslashes⟩ := Text.exists_dropWhileEnd (· == '/') path
  refine ⟨slashes, by simpa using hslashes, ?_⟩
  by_cases hgit : ".git".toList <:+ dropWhileEnd (· == '/') path
  · obtain ⟨base, hbase⟩ := hgit
    have hbare : bare path = base := by rw [bare, Text.stripEnd?_eq_some_iff.mpr hbase.symm]; rfl
    exact .inl (by rw [hbare, hbase, ← hpath])
  · have hbare : bare path = dropWhileEnd (· == '/') path := by rw [bare, Text.stripEnd?_eq_none_iff.mpr hgit]; rfl
    exact .inr ⟨hbare ▸ hgit, by rw [hbare, ← hpath]⟩

theorem names_of_named? (h : named? (dropWhileEnd isBlank s) = some k) : Names s k := by
  obtain ⟨blanks, hs, hblanks⟩ := Text.exists_dropWhileEnd isBlank s
  obtain ⟨slashes, hslashes, hpath⟩ := bare_cases (dropWhileEnd isBlank s)
  obtain ⟨hbare, -, hname⟩ := named?_eq_some_iff.mp h
  rw [← toList_text] at hbare
  rw [hbare] at hpath
  refine ⟨ofParts_of_named? h, slashes, blanks, hslashes, hblanks, ?_⟩
  rcases hpath with hpath | ⟨hgit, hpath⟩
  · exact .inl (by rw [← hpath, ← hs])
  · rw [toList_text] at hgit
    exact .inr ⟨mt (suffix_path_iff k.owner.toList k.name.toList).mpr hgit, by rw [← hpath, ← hs]⟩

theorem isSegment_append_git {name : List Char} (h : isSegment name = true) : isSegment (name ++ ".git".toList) = true := by
  have hgit : ∀ c ∈ ".git".toList, isKeyChar c = true := List.all_eq_true.mp rfl
  have hlast : (name ++ ".git".toList).getLast? = some 't' := List.getLast?_append_of_ne_nil _ (by decide)
  have hne : ∀ s : List Char, s.getLast? ≠ some 't' → name ++ ".git".toList ≠ s := by
    rintro _ hs rfl
    exact hs hlast
  exact isSegment_iff.mpr ⟨hne _ (by decide), hne _ (by decide), hne _ (by decide), fun c hc =>
    (List.mem_append.mp hc).elim ((isSegment_iff.mp h).2.2.2 c) (hgit c)⟩

theorem named?_of_names (h : Names s k) : named? (dropWhileEnd isBlank s) = some k := by
  obtain ⟨hk, slashes, blanks, hslashes, hblanks, hs⟩ := h
  obtain ⟨howner, hname, -⟩ := ofParts_eq_ok_iff.mp hk
  -- whether `.git` is there or not, the path has the owner and some name, and its stem is that of the key
  have hread : ∀ name, isSegment name = true → stem name = k.name.toList →
      named? (dropWhileEnd isBlank (path k.owner.toList name ++ slashes ++ blanks)) = some k := by
    intro name hsegment hstem
    rw [Text.dropWhileEnd_append_of_all hblanks, dropWhileEnd_append_slashes hslashes (edged_path howner hsegment).last,
      named?_append_slashes hslashes, named?_eq_some_iff, bare_path hsegment, hstem]
    exact ⟨rfl, howner, hname⟩
  rw [toList_text] at hs
  rcases hs with rfl | ⟨hgit, rfl⟩
  · rw [List.append_assoc (k.owner.toList), List.cons_append]
    exact hread _ (isSegment_append_git hname) (stem_append _)
  · exact hread _ hname (stem_of_not_suffix hgit)

/-- White space around an identifier is not read. -/
theorem parse?_between {before after : List Char} (hbefore : ∀ c ∈ before, isBlank c = true)
    (hafter : ∀ c ∈ after, isBlank c = true) (s : List Char) : parse? (before ++ s ++ after) = parse? s := by
  have htrim : trimChars (before ++ s ++ after) = trimChars s := Text.trimWhere_between hbefore hafter s
  rw [parse?_eq, parse?_eq, htrim]

/-- The answer to an identifier that spells this key, or none. -/
def answer (key? : Option Key) (identifier : String) : Except Failure Key :=
  match key? with
  | some k => .ok k
  | none => .error (.invalidRepository identifier)

theorem parse_eq_answer (identifier : String) : parse identifier = answer (parse? identifier.toList) identifier := by
  rw [parse]
  cases parse? identifier.toList <;> rfl

theorem toOption_answer (key? : Option Key) (identifier : String) : (answer key? identifier).toOption = key? := by
  cases key? <;> rfl

/-- All spellings of a path name the same key, which is one that its own parts make up, or all are refused, each as it was
given. Neither slashes behind a path that does not end in white space nor white space around an identifier changes that. -/
theorem spellings_agree (p : String) (hp : Pathlike p.toList) :
    (∃ key? : Option Key, (∀ k, key? = some k → ofParts k.owner k.name = .ok k) ∧
      (∀ k, key? = some k ↔ Names p.toList k) ∧
      ∀ slashes : String, (∀ c ∈ slashes.toList, c = '/') →
        (slashes = "" ∨ ∀ c ∈ p.toList.getLast?, isBlank c = false) →
        ∀ id, Spells (p ++ slashes) id → parse id = answer key? id) ∧
    ∀ id before after : String, (∀ c ∈ before.toList, isBlank c = true) → (∀ c ∈ after.toList, isBlank c = true) →
      parse (before ++ id ++ after) = answer (parse id).toOption (before ++ id ++ after) := by
  refine ⟨⟨named? (dropWhileEnd isBlank p.toList), fun k => ofParts_of_named?,
    fun k => ⟨names_of_named?, named?_of_names⟩, ?_⟩, ?_⟩
  · intro slashes hslashes hlast id hid
    rw [parse_eq_answer, parse?_of_spells hp hslashes hlast hid]
  · intro id before after hbefore hafter
    rw [parse_eq_answer id, toOption_answer, parse_eq_answer, String.toList_append, String.toList_append,
      parse?_between hbefore hafter]

/-- A path with `.git` and slashes at its end, in the short form and between white space. -/
theorem spellings_agree_short_form :
    Pathlike "acme/vaults.git".toList ∧ Spells ("acme/vaults.git" ++ "//") "git@github.com:acme/vaults.git//" ∧
      parse "\u2003git@github.com:acme/vaults.git//\n" = .ok ⟨"acme", "vaults"⟩ := by
  have hp : Pathlike "acme/vaults.git".toList := ⟨by rintro _ ⟨⟩; decide, by decide, by rw [← Text.contains_iff]; decide⟩
  have hshort : Spells ("acme/vaults.git" ++ "//") "git@github.com:acme/vaults.git//" := .shell "github.com" (by decide)
  obtain ⟨⟨key?, -, -, hread⟩, hspace⟩ := spellings_agree "acme/vaults.git" hp
  have hkey : key? = some ⟨"acme", "vaults"⟩ := by
    have hbare : parse "acme/vaults.git" = .ok ⟨"acme", "vaults"⟩ := rfl
    rw [hread "" (by simp) (.inl rfl) "acme/vaults.git" .bare] at hbare
    rw [← toOption_answer key? "acme/vaults.git", hbare]
    rfl
  refine ⟨hp, hshort, ?_⟩
  have hpadded := hspace "git@github.com:acme/vaults.git//" "\u2003" "\n" (List.all_eq_true.mp rfl) (List.all_eq_true.mp rfl)
  rw [hread "//" (by simp) (.inr (by rintro _ ⟨⟩; decide)) _ hshort, toOption_answer, hkey] at hpadded
  exact hpadded

end ContractMigration.Key
