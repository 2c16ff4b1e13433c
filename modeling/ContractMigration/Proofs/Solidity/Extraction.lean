import ContractMigration.Proofs.Solidity.Names

/-! What is extracted of trees that differ in nothing but layout. As long as the names in them are legible, that is, nothing
in the layout is taken for a part of them, it is the same, and the parents are dotted paths. -/

namespace ContractMigration.Solidity

/-- All that is passed on the way to the path of an import is without quotes, and all that is passed on the way to the end
of the name of a parent is white space. -/
structure Legible (trees : List Tree) : Prop where
  imports : ∀ t ∈ trees, t.phrase? = some .importDirective → clear isQuote opensQuote t.tokens.tail = true
  parents : ∀ t ∈ trees, ∀ u ∈ t.children, u.phrase? = some .parent →
    clear (!Text.isBlank ·) opensArguments u.tokens.tail = true

variable {t t' : Tree} {trees trees' : List Tree}

theorem importPath?_of_like (h : t.Like Calmer t') (hclosed : ∀ u ∈ t.tokens, Closed u)
    (hclear : clear isQuote opensQuote t.tokens.tail = true) : importPath? t'.text = importPath? t.text := by
  have htokens := h.tokens
  rw [importPath?, importPath?, Tree.text, Tree.text, String.toList_ofList, String.toList_ofList]
  refine congrArg _ ?_
  generalize t.tokens = us at htokens hclosed hclear
  generalize t'.tokens = us' at htokens
  cases htokens with
  | nil => rfl
  | @cons u u' us us' hu hus =>
    rw [List.forall_mem_cons] at hclosed
    rw [textOf_cons, textOf_cons, hu.1]
    rcases hclosed.1 with hplain | ⟨q, r, htext, hq, hr⟩
    · rw [importPathChars?_append hplain, importPathChars?_append hplain]
      exact importPathChars?_spelled hus hclosed.2 hclear
    · rw [htext, importPathChars?_quoted hq hr, importPathChars?_quoted hq hr]

/-- The name of a parent is a dotted path, if all that is passed is white space. -/
theorem isDottedPath_parentName (hshape : Parental (t.tokens.map Token.text))
    (hclear : clear (!Text.isBlank ·) opensArguments t.tokens.tail = true) : IsDottedPath (parentName t.text) := by
  obtain ⟨path, args, htexts, hpath, hargs⟩ := hshape
  rw [Tree.text, parentName_textOf htexts hpath hargs hclear]
  exact hpath.isDottedPath

theorem parentName_of_like (h : t.Like Calmer t') (hshape : Parental (t.tokens.map Token.text))
    (hclear : clear (!Text.isBlank ·) opensArguments t.tokens.tail = true) : parentName t'.text = parentName t.text := by
  obtain ⟨path, args, htexts, hpath, hargs⟩ := hshape
  have hclear' := clear_of_calmer (by decide) (fun hu => by rw [opensArguments, opensArguments, hu.1])
    (forall₂_tail h.tokens) hclear
  have hsame := texts_of_calmer h.tokens
  rw [Tree.text, Tree.text, parentName_textOf htexts hpath hargs hclear,
    parentName_textOf (hsame.trans htexts) hpath hargs hclear']

theorem mem_distinct {names : List String} {s : String} (h : s ∈ distinct names) : s ∈ names := by
  have hfold : ∀ (names acc : List String), s ∈ names.foldl addNew acc → s ∈ acc ∨ s ∈ names := by
    intro names
    induction names with
    | nil => exact fun acc h => .inl h
    | cons n names ih =>
      intro acc h
      rcases ih _ h with h | h
      · rw [addNew] at h
        split_ifs at h
        · exact .inl h
        · rcases List.mem_append.mp h with h | h
          · exact .inl h
          · exact .inr (List.mem_singleton.mp h ▸ List.mem_cons_self)
      · exact .inr (List.mem_cons_of_mem _ h)
  exact (hfold names [] h).resolve_left List.not_mem_nil

theorem tokens_of_phrase? {p : Phrase} (h : t.phrase? = some p) : t.tokens = Tree.tokensOf t.children := by
  cases t with
  | leaf u => cases h
  | node q ts => rfl

theorem importsOf_of_likes (h : Tree.Likes Calmer trees trees') (hshape : Tree.EachOf Shape trees)
    (hlegible : Legible trees) : importsOf trees' = importsOf trees := by
  have hpaths : ∀ ts : List Tree, ts.filterMap (fun t => importPath? t.text) =
      (ts.map fun t => importPath? t.text).filterMap id := fun ts => by rw [List.filterMap_map, Function.id_comp]
  rw [importsOf, importsOf, hpaths, hpaths]
  refine congrArg (fun l => distinct (l.filterMap id)) (map_of_forall₂ (h.filter .importDirective) fun t ht t' htt' => ?_)
  rw [List.mem_filter, beq_iff_eq] at ht
  have hclosed := (Tree.eachOf_iff.mp hshape t ht.1).of_phrase? ht.2
  refine importPath?_of_like htt' ?_ (hlegible.imports t ht.1 ht.2)
  rw [tokens_of_phrase? ht.2]
  exact hclosed

/-- The parents of a declaration as trees. -/
theorem parental_of_mem {u : Tree} (hshape : t.Each Shape)
    (hu : u ∈ t.children.filter fun c => c.phrase? == some .parent) :
    u ∈ t.children ∧ u.phrase? = some .parent ∧ Parental (u.tokens.map Token.text) := by
  rw [List.mem_filter, beq_iff_eq] at hu
  refine ⟨hu.1, hu.2, ?_⟩
  rw [tokens_of_phrase? hu.2]
  exact (hshape.children u hu.1).of_phrase? hu.2

theorem parents_of_like (h : t.Like Calmer t') (hshape : t.Each Shape)
    (hclear : ∀ u ∈ t.children, u.phrase? = some .parent →
      clear (!Text.isBlank ·) opensArguments u.tokens.tail = true) : parents t' = parents t := by
  refine congrArg distinct (map_of_forall₂ (h.children.filter .parent) fun u hu u' huu' => ?_)
  obtain ⟨hmem, hp, hparental⟩ := parental_of_mem hshape hu
  exact parentName_of_like huu' hparental (hclear u hmem hp)

theorem isDottedPath_of_mem_parents (hshape : t.Each Shape) (hclear : ∀ u ∈ t.children, u.phrase? = some .parent →
      clear (!Text.isBlank ·) opensArguments u.tokens.tail = true) {name : String} (h : name ∈ parents t) :
    IsDottedPath name := by
  obtain ⟨u, hu, rfl⟩ := List.mem_map.mp (mem_distinct h)
  obtain ⟨hmem, hp, hparental⟩ := parental_of_mem hshape hu
  exact isDottedPath_parentName hparental (hclear u hmem hp)

/-! ### Declarations -/

theorem contractKind?_of_like {R : Token → Token → Prop} (h : t.Like R t') : contractKind? t' = contractKind? t := by
  rw [contractKind?, contractKind?, h.phrase?, h.has]

theorem nameText?_of_like (h : t.Like Calmer t') (hshape : t.Each Shape) : t'.childText? .name = t.childText? .name := by
  rw [Tree.childText?, Tree.childText?]
  rcases h.child? .name with ⟨hn, hn'⟩ | ⟨u, u', hu, hu', huu'⟩
  · rw [hn, hn']
  · rw [hu, hu', Option.map_some, Option.map_some]
    have hp : u.phrase? = some .name := by simpa using List.find?_some hu
    obtain ⟨v, hv⟩ := (hshape.children u (List.mem_of_find?_eq_some hu)).of_phrase? hp
    have htokens : u.tokens = [v] := by rw [tokens_of_phrase? hp, hv]; rfl
    have hpairs := huu'.tokens
    rw [htokens, List.forall₂_cons_left_iff] at hpairs
    obtain ⟨v', vs, hvv', hvs, htokens'⟩ := hpairs
    obtain rfl := List.forall₂_nil_left_iff.mp hvs
    rw [Tree.text, Tree.text, htokens, htokens', textOf_cons, textOf_cons, hvv'.1]

/-- What a declaration is called and the parents that it names. -/
def heading (u : ContractUnit) : String × List String := (u.name, u.inherits)

theorem unitOf?_map_heading (path : String) (imports : List String) (t : Tree) :
    (unitOf? path imports t).map heading = (contractKind? t).bind fun _ => (t.childText? .name).bind fun name =>
      if name = "" then none else some (name, parents t) := by
  rw [unitOf?]
  rcases contractKind? t with _ | kind
  · rfl
  · rcases t.childText? .name with _ | name
    · rfl
    · by_cases hname : name = "" <;> simp [hname, heading]

/-- Declarations that differ in nothing but layout have one name and the same parents. -/
theorem heading_of_like (path : String) (imports : List String) (h : t.Like Calmer t') (hshape : t.Each Shape)
    (hclear : ∀ u ∈ t.children, u.phrase? = some .parent →
      clear (!Text.isBlank ·) opensArguments u.tokens.tail = true) :
    (unitOf? path imports t').map heading = (unitOf? path imports t).map heading := by
  rw [unitOf?_map_heading, unitOf?_map_heading, contractKind?_of_like h, nameText?_of_like h hshape,
    parents_of_like h hshape hclear]

theorem extract_eq_ok {path source : String} (h : parse? source = some trees) :
    extract path source = .ok (extractTrees path trees) := by
  unfold extract
  split
  · next hs => rw [Option.some.inj (h.symm.trans hs)]
  · next hs => cases h.symm.trans hs

theorem extractTrees_of_likes (path : String) (h : Tree.Likes Calmer trees trees') (hshape : Tree.EachOf Shape trees)
    (hlegible : Legible trees) : (extractTrees path trees').imports = (extractTrees path trees).imports ∧
      (extractTrees path trees').contracts.map heading = (extractTrees path trees).contracts.map heading := by
  have himports := importsOf_of_likes h hshape hlegible
  refine ⟨himports, ?_⟩
  have hunits : ∀ (imports : List String) (ts : List Tree), (ts.filterMap (unitOf? path imports)).map heading =
      (ts.map fun t => (unitOf? path imports t).map heading).filterMap id := fun imports ts => by
    rw [List.map_filterMap, List.filterMap_map]
    rfl
  rw [extractTrees, extractTrees, himports, hunits, hunits]
  refine congrArg (List.filterMap id) (map_of_forall₂ h.forall₂ fun t ht t' htt' => ?_)
  exact heading_of_like path _ htt' (Tree.eachOf_iff.mp hshape t ht) (hlegible.parents t ht)

theorem isDottedPath_of_mem_inherits {path : String} (hshape : Tree.EachOf Shape trees) (hlegible : Legible trees)
    {u : ContractUnit} (hu : u ∈ (extractTrees path trees).contracts) {name : String} (hname : name ∈ u.inherits) :
    IsDottedPath name := by
  obtain ⟨t, ht, hunit⟩ := List.mem_filterMap.mp hu
  have hinherits : u.inherits = parents t := by
    have hheading := congrArg (Option.map heading) hunit
    rw [unitOf?_map_heading] at hheading
    obtain ⟨kind, -, hname⟩ := Option.bind_eq_some_iff.mp hheading
    obtain ⟨n, -, hn⟩ := Option.bind_eq_some_iff.mp hname
    split_ifs at hn
    exact congrArg Prod.snd (Option.some.inj hn).symm
  rw [hinherits] at hname
  exact isDottedPath_of_mem_parents (Tree.eachOf_iff.mp hshape t ht) (hlegible.parents t ht) hname

/-! ### Layout that counts -/

/-- The imports of a source and the parents of each declaration, if the source is well formed. -/
def namesOf? (source : String) : Option (List String × List (List String)) :=
  (extract "" source).toOption.map fun f => (f.imports, f.contracts.map ContractUnit.inherits)

/-- What is quoted in a comment in front of a path is taken for the path, and a comment in front of a point becomes a part
of the name. Spaces in their place are passed. -/
theorem comments_leak_into_names :
    namesOf? "import /* './Old.sol' */ './New.sol';\ncontract A is Lib/* x */.Base \x7b\x7d" =
      some (["./Old.sol"], [["Lib/*x*/.Base"]]) ∧
    namesOf? "import   './New.sol';\ncontract A is Lib .Base \x7b\x7d" = some (["./New.sol"], [["Lib.Base"]]) := by
  decide +kernel

end ContractMigration.Solidity
