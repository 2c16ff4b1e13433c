import ContractMigration.Solidity.Rule

/-! The grammar of Solidity, from version 0.4 on. It is wider than any one compiler's: modifiers may be mixed and
repeated, lists may end with a comma, and older and newer forms stand side by side. A word with a meaning at some place
is no name there. -/

namespace ContractMigration.Solidity

/-- What a brace opens behind an expression, if not the fields of a struct. -/
inductive Body
  | block
  | contract

/-- The rules with names. A guarded expression stands in front of a body. -/
inductive Nonterminal
  | source
  | element
  | importDirective
  | usingDirective
  | structDeclaration
  | enumDeclaration
  | eventDefinition
  | errorDeclaration
  | userType
  | functionDefinition
  | functionType
  | mapping
  | contractBody
  | contractMember
  | header
  | typeName
  | dimensions
  | path
  | parameters
  | parameter
  | attribute
  | overrideSpecifier
  | invocation
  | callArguments
  | functionBody
  | expression
  | operand
  | guarded (b : Body)
  | guardedOperand (b : Body)
  | primary
  | suffix
  | tightSuffix
  | looseSuffix
  | fields
  | invoked
  | invokedOperand
  | statement
  | block
  | simpleStatement
  | localType
  | localDeclaration
  | yulBlock
  | yulStatement
  | yulExpression
  | yulArguments
  | yulCall
  | yulPath

namespace Grammar

open Rule

abbrev R := Rule Nonterminal

/-- A word. -/
def kw (w : String) : R := token (.word w)

/-- One of several words. -/
def kws (ws : List String) : R := token (.wordIn ws)

/-- A symbol. -/
def sym (s : String) : R := token (.symbol s)

/-- One of several symbols, of which none begins with an earlier one. -/
def syms (ss : List String) : R := token (.symbolIn ss)

/-- Any word as a name. -/
def ident : R := token .name

/-- A word as a name, unless it is one of these. -/
def identBut (ws : List String) : R := excluding (kws ws) ident

/-- A string. -/
def text : R := token .string

def semicolon : R := sym ";"

def visibilityWords : List String := ["public", "internal", "private", "external"]

def mutabilityWords : List String := ["pure", "view", "payable"]

def locationWords : List String := ["memory", "storage", "calldata"]

/-- Words that begin a declaration. -/
def declarationWords : List String :=
  ["pragma", "import", "using", "abstract", "contract", "interface", "library", "struct", "enum", "type", "error", "event"]

/-- Words that begin a type and are no names there. -/
def typeWords : List String := ["mapping", "function"]

/-- Words that begin a member of a contract and no type. -/
def memberWords : List String :=
  ["modifier", "error", "struct", "enum", "event", "using", "constructor", "fallback", "receive", "type"]

/-- Words that begin a statement. -/
def statementWords : List String :=
  ["if", "for", "while", "do", "continue", "break", "try", "return", "emit", "assembly", "revert", "unchecked"]

/-- Words that begin an expression and are no names there. -/
def expressionWords : List String := ["new", "delete", "type", "payable", "hex", "unicode", "true", "false"]

/-- Words between the parameters and the results of a function. -/
def attributeWords : List String := visibilityWords ++ mutabilityWords ++ ["virtual", "override", "returns"]

/-- Words that say more about a state variable. -/
def storageWords : List String := ["constant", "immutable", "transient"]

def unitWords : List String :=
  ["wei", "gwei", "szabo", "finney", "ether", "seconds", "minutes", "hours", "days", "weeks", "years"]

/-- Operators in front of an operand. -/
def prefixSymbols : List String := ["!", "~", "++", "--", "-"]

/-- Operators that change their left operand. They bind weakest, and from the right. -/
def assignmentSymbols : List String := ["+=", "-=", "*=", "/=", "%=", "^=", "&=", "|=", ">>=", "<<="]

/-- Operators between two operands that change none. -/
def infixSymbols : List String :=
  ["||", "&&", "==", "!=", "<<", ">>>", ">>", "<=", ">=", "**", "|", "^", "&", "<", ">", "+", "-", "*", "/", "%"]

/-- Operators that a type may define. -/
def definableSymbols : List String :=
  ["==", "!=", ">=", "<=", "&", "~", "|", "^", "+", "/", "%", "*", "-", ">", "<"]

/-- What may follow a struct that is no body: any symbol. -/
def followingSymbols : List String := "(){}[];,.=<>+-*/%!~&|^?:".toList.map toString

/-- Words that may follow a struct in front of a body. -/
def followingWords : Body → List String
  | .block => ["returns", "unchecked"]
  | .contract => ["is", "layout"]

/-- Words that begin a statement of an assembly block and are no names there. -/
def yulStatementWords : List String := ["let", "if", "for", "switch", "leave", "break", "continue", "function"]

/-- Words that are or begin a literal of an assembly block. -/
def yulLiteralWords : List String := ["true", "false", "hex"]

/-- The instructions of an assembly block. -/
def yulBuiltins : List String :=
  ["stop", "add", "sub", "mul", "div", "sdiv", "mod", "smod", "exp", "not", "lt", "gt", "slt", "sgt", "eq", "iszero",
    "and", "or", "xor", "byte", "shl", "shr", "sar", "addmod", "mulmod", "signextend", "keccak256", "pop", "mload",
    "mstore", "mstore8", "mcopy", "sload", "sstore", "tload", "tstore", "msize", "gas", "address", "balance",
    "selfbalance", "caller", "callvalue", "calldataload", "calldatasize", "calldatacopy", "extcodesize", "extcodecopy",
    "returndatasize", "returndatacopy", "extcodehash", "create", "create2", "call", "callcode", "delegatecall",
    "staticcall", "return", "revert", "selfdestruct", "invalid", "log0", "log1", "log2", "log3", "log4", "chainid",
    "origin", "gasprice", "blockhash", "blobhash", "coinbase", "timestamp", "number", "difficulty", "prevrandao",
    "gaslimit", "basefee", "blobfee", "blobbasefee"]

def visibility : R := phrase .visibility (kws visibilityWords)

def mutability : R := phrase .mutability (kws mutabilityWords)

def name : R := phrase .name ident

/-- A function from its parameters on, with or without a body. -/
def functionTail : R :=
  all [ref .parameters, many (ref .attribute), opt (phrase .returns (seq (kw "returns") (ref .parameters))),
    alt semicolon (ref .functionBody)]

/-- A type that the language has without declaration. -/
def elementary : R := alt (seq (kw "address") (opt (kw "payable"))) (token .elementaryType)

/-- A type without array dimensions, if it is named by `own` or not at all. -/
def baseType (own : R) : R := any [ref .mapping, ref .functionType, elementary, excluding (kws typeWords) own]

/-- The type of a function behind its parameters. The results have no names. -/
def functionTypeTail : R :=
  seq (many (kws (visibilityWords ++ mutabilityWords))) (committed (kw "returns")
    (all [kw "returns", sym "(", commaList1 (seq (ref .typeName) (opt (kws locationWords))), sym ")"]))

/-- A word that belongs to a function type and to a function without a name alike. -/
def sharedAttribute : R := kws (visibilityWords ++ mutabilityWords)

/-- The type of a state variable. A function type must not be followed by a name at once: there the name is a modifier
of a function without a name. -/
def storedType : R := alt
  (phrase .typeName (all [kw "function", ref .parameters, absent (identBut (visibilityWords ++ mutabilityWords ++
    "returns" :: storageWords)), absent (seq sharedAttribute (kw "virtual")), functionTypeTail, ref .dimensions]))
  (excluding (kws ("function" :: memberWords)) (ref .typeName))

/-- The beginning of a function without a name. A word for storage behind its parameters, or behind one more word, can
only belong to a state variable. -/
def unnamedFunction : R := excluding
  (all [kw "function", ref .parameters, opt sharedAttribute, kws storageWords]) (kw "function")

/-- The signs for one more and one less. -/
def steps : R := syms ["++", "--"]

/-- An operator between two operands, or the middle of a choice between two values. -/
def connective (symbols : List String) : R :=
  alt (all [sym "?", ref .expression, sym ":"]) (excluding steps (syms symbols))

/-- A sign of assignment. -/
def assignment : R := alt (syms assignmentSymbols) (excluding (sym "==") (sym "="))

def prefixes : R := alt (syms prefixSymbols) (kw "delete")

/-- The first name behind a brace that may also open a body. A word that begins a statement is none. -/
def firstField : Body → R
  | .block => excluding (alt (kws (statementWords ++ expressionWords ++ typeWords)) (token .elementaryType)) ident
  | .contract => ident

/-- A field of a struct. -/
def fieldNamed (own : R) : R := all [own, sym ":", ref .expression]

/-- The fields of a struct. -/
def fieldsFrom (first : R) : R :=
  all [sym "\x7b", opt (commaListOf (fieldNamed first) (fieldNamed ident)), sym "\x7d"]

/-- The rule behind a name. -/
def rule : Nonterminal → R
  | .source => many (ref .element)
  | .element => any [
      all [kw "pragma", alt (seq (kw "solidity") (many (seq versionPart (opt (syms ["||", "-"])))))
        (seq ident (token .pragmaValue)), semicolon],
      ref .importDirective, ref .usingDirective,
      phrase .contract (all [opt (phrase .abstractMark (kw "abstract")), kw "contract", name, many (ref .header),
        ref .contractBody]),
      phrase .interface (all [kw "interface", name, opt heritage, ref .contractBody]),
      phrase .library (all [kw "library", name, ref .contractBody]),
      ref .structDeclaration, ref .enumDeclaration, ref .functionDefinition, ref .userType, ref .errorDeclaration,
      ref .eventDefinition,
      excluding (kws declarationWords) (all [ref .typeName, kw "constant", ident, sym "=", ref .expression, semicolon])]
  | .importDirective => phrase .importDirective (all [kw "import", any [
      seq text (opt (seq (kw "as") ident)),
      all [alt (sym "*") ident, opt (seq (kw "as") ident), kw "from", text],
      all [sym "\x7b", commaList (seq ident (opt (seq (kw "as") ident))), sym "\x7d", kw "from", text]], semicolon])
  | .usingDirective => all [kw "using",
      alt (all [sym "\x7b", commaList1 (seq (ref .path) (opt (seq (kw "as") (syms definableSymbols)))), sym "\x7d"])
        (ref .path),
      kw "for", alt (sym "*") (ref .typeName), opt (kw "global"), semicolon]
  | .structDeclaration => phrase .struct (all [kw "struct", name, sym "\x7b",
      many1 (all [ref .typeName, ident, semicolon]), sym "\x7d"])
  | .enumDeclaration => phrase .enum (all [kw "enum", name, sym "\x7b", commaList ident, sym "\x7d"])
  | .eventDefinition => phrase .event (all [kw "event", name, sym "(",
      commaList (all [ref .typeName, opt (kw "indexed"), opt ident]), sym ")", opt (kw "anonymous"), semicolon])
  | .errorDeclaration => phrase .error (all [kw "error", name, sym "(", commaList (seq (ref .typeName) (opt ident)),
      sym ")", semicolon])
  | .userType => all [kw "type", ident, kw "is", elementary, semicolon]
  | .functionDefinition => phrase .function (all [kw "function", name, functionTail])
  | .functionType => all [kw "function", ref .parameters, functionTypeTail]
  | .mapping => all [kw "mapping", sym "(", alt elementary (ref .path), opt ident, sym "=>", ref .typeName, opt ident,
      sym ")"]
  | .contractBody => phrase .body (all [sym "\x7b", many (ref .contractMember), sym "\x7d"])
  | .contractMember => any [
      ref .functionDefinition,
      phrase .modifier (all [kw "modifier", name, opt (ref .parameters),
        many (alt (kw "virtual") (ref .overrideSpecifier)), alt semicolon (ref .functionBody)]),
      ref .errorDeclaration,
      phrase .stateVariable (all [storedType,
        many (any [visibility, phrase .constantMark (kw "constant"), phrase .immutableMark (kw "immutable"),
          kw "transient", ref .overrideSpecifier]),
        name, opt (seq (sym "=") (ref .expression)), semicolon]),
      ref .structDeclaration, ref .enumDeclaration, ref .eventDefinition, ref .usingDirective,
      phrase .constructor (all [kw "constructor", ref .parameters,
        many (alt (kws ["payable", "internal", "public"]) (ref .invocation)), ref .functionBody]),
      phrase .fallback (seq (alt (kws ["fallback", "receive"]) unnamedFunction) functionTail),
      ref .userType]
  | .header => alt heritage (all [kw "layout", kw "at", ref (.guarded .contract)])
  | .typeName => phrase .typeName (seq (baseType (ref .path)) (ref .dimensions))
  | .dimensions => many (all [sym "[", opt (ref .expression), sym "]"])
  | .path => seq ident (many (seq (sym ".") ident))
  | .parameters => all [sym "(", commaList (ref .parameter), sym ")"]
  | .parameter => phrase .parameter (all [ref .typeName, opt (kws locationWords), opt ident])
  | .attribute => any [visibility, mutability, kw "virtual", ref .overrideSpecifier,
      excluding (kws attributeWords) (ref .invocation)]
  | .overrideSpecifier => seq (kw "override") (opt (all [sym "(", commaList1 (ref .path), sym ")"]))
  | .invocation => seq (ref .path) (opt (ref .callArguments))
  | .callArguments => all [sym "(", commaList argument, sym ")"]
  | .functionBody => phrase .body (all [sym "\x7b", many (ref .statement), sym "\x7d"])
  | .expression => seq (ref .operand) (many (seq (alt assignment (connective infixSymbols)) (ref .operand)))
  | .operand => all [many prefixes, ref .primary, many (ref .suffix)]
  | .guarded b => all [ref (.guardedOperand b), many (all [absent assignment, connective infixSymbols,
      ref (.guardedOperand b)]), opt (all [assignment, ref .expression, absent (sym "\x7b")])]
  | .guardedOperand b => all [many prefixes, ref .primary, many (any [ref .tightSuffix, member, index,
      seq (fieldsFrom (firstField b)) (ahead (alt (syms followingSymbols) (kws (followingWords b))))])]
  | .primary => any [
      seq (token .number) (opt (kws unitWords)),
      many1 text,
      many1 (seq (kw "hex") (token .hexString)),
      many1 (seq (kw "unicode") (token .plainString)),
      kws ["true", "false"],
      all [kw "new", phrase .typeName (seq (baseType ident) (ref .dimensions)), absent (sym "[")],
      all [kw "type", sym "(", ref .typeName, sym ")"],
      seq (kw "payable") (ref .callArguments),
      elementary,
      excluding (kws expressionWords) (token .operandName),
      all [sym "(", opt (ref .expression), many (seq (sym ",") (opt (ref .expression))), sym ")"],
      all [sym "[", commaList (ref .expression), sym "]"]]
  | .suffix => alt (ref .tightSuffix) (ref .looseSuffix)
  | .tightSuffix => alt steps (ref .callArguments)
  | .looseSuffix => any [member, index, ref .fields]
  | .fields => fieldsFrom ident
  | .invoked => any [
      seq (ref .callArguments) (ahead semicolon),
      seq (ref .suffix) (ref .invoked),
      all [absent assignment, connective infixSymbols, ref .invokedOperand]]
  | .invokedOperand => all [many prefixes, ref .primary, many (ref .tightSuffix), alt
      (seq (ref .looseSuffix) (ref .invoked))
      (all [absent assignment, connective infixSymbols, ref .invokedOperand])]
  | .statement => any [
      ref .block,
      all [kw "if", sym "(", ref .expression, sym ")", ref .statement,
        committed (kw "else") (seq (kw "else") (ref .statement))],
      all [kw "for", sym "(", alt semicolon (ref .simpleStatement), alt semicolon (seq (ref .expression) semicolon),
        opt (ref .expression), sym ")", ref .statement],
      all [kw "while", sym "(", ref .expression, sym ")", ref .statement],
      all [kw "do", ref .statement, kw "while", sym "(", ref .expression, sym ")", semicolon],
      seq (kws ["continue", "break"]) semicolon,
      all [kw "try", ref (.guarded .block), opt (seq (kw "returns") (ref .parameters)), ref .block,
        many1 catchClause, absent (kw "catch")],
      all [kw "return", opt (ref .expression), semicolon],
      all [kw "emit", any [seq (ref .primary) (ref .invoked), seq (ahead prefixes) (ref .invokedOperand),
        all [many1 steps, ref .primary, many (ref .callArguments), steps, ref .invoked]], semicolon],
      all [kw "revert", opt (alt (ref .expression) (all [sym "(", commaListOf (ref .fields) argument, sym ")"])),
        semicolon],
      all [kw "assembly", opt (sym "\"evmasm\""), opt (all [sym "(", commaList text, sym ")"]), ref .yulBlock],
      excluding (kws statementWords) (ref .simpleStatement)]
  | .block => seq (opt (kw "unchecked")) (ref .functionBody)
  | .simpleStatement => any [
      all [ref .localDeclaration, opt (seq (sym "=") (ref .expression)), semicolon],
      all [sym "(", alt (seq (opt (sym ",")) (ref .localDeclaration)) (all [sym ",", many1 (sym ","), declaration]),
        many (seq (sym ",") (opt declaration)), sym ")", sym "=", ref .expression, semicolon],
      all [kw "var", sym "(", opt ident, many (seq (sym ",") (opt ident)), sym ")", sym "=", ref .expression,
        semicolon],
      all [absent (seq (kw "var") (sym "(")), absent (all [opt (sym "("), many (sym ","), kws typeWords]),
        ref .expression, semicolon]]
  | .localType => phrase .typeName (seq (baseType (excluding (kws expressionWords)
      (seq (token .operandName) (opt (seq (sym ".") ident))))) (ref .dimensions))
  | .localDeclaration => all [ref .localType, opt (kws locationWords), ident]
  | .yulBlock => all [sym "\x7b", many (ref .yulStatement), sym "\x7d"]
  | .yulStatement => any [
      ref .yulBlock,
      seq (kw "let") (any [
        all [sym "(", commaList1 ident, sym ")", opt (seq (sym ":=") (ref .yulCall))],
        all [ident, sym ",", opt (seq (sym ":=") (ref .yulCall))],
        seq ident (opt (seq (sym ":=") (ref .yulExpression)))]),
      all [kw "if", ref .yulExpression, ref .yulBlock],
      all [kw "for", ref .yulBlock, ref .yulExpression, ref .yulBlock, ref .yulBlock],
      all [kw "switch", ref .yulExpression, alt yulDefault (seq (many1 yulCase)
        (alt yulDefault (absent (kws ["case", "default"]))))],
      kws ["leave", "break", "continue"],
      all [kw "function", ident, sym "(", commaList ident, sym ")", opt (seq (sym "->") (commaList1 ident)),
        ref .yulBlock],
      yulLiteral,
      excluding (kws (yulStatementWords ++ yulLiteralWords)) (any [
        ref .yulCall,
        all [ref .yulPath, yulAssign, ref .yulExpression],
        seq ident (sym ":"),
        all [ref .yulPath, sym ",", opt (seq yulAssign (ref .yulCall))],
        ref .yulPath])]
  | .yulExpression => alt yulLiteral (excluding (kws yulLiteralWords) (alt (ref .yulCall) (ref .yulPath)))
  | .yulArguments => all [sym "(", commaList (ref .yulExpression), sym ")"]
  | .yulCall => alt (seq (kws yulBuiltins) (opt (ref .yulArguments))) (seq ident (ref .yulArguments))
  | .yulPath => excluding (kws yulBuiltins) (ref .path)
where
  versionPart : R := seq (opt (syms ["<=", "<", "^", ">=", ">", "~", "="])) (token .version)
  catchClause : R := all [kw "catch", opt (seq (opt (identBut ["unchecked"])) (ref .parameters)), ref .block]
  heritage : R := seq (kw "is") (commaListOf parent (excluding (kws ["is", "layout"]) parent))
  parent : R := phrase .parent (seq (ref .path) (opt (ref .callArguments)))
  argument : R := alt (ref .fields) (ref .expression)
  member : R := seq (sym ".") ident
  index : R := all [sym "[", opt (ref .expression), opt (seq (sym ":") (opt (ref .expression))), sym "]"]
  declaration : R := all [ref .typeName, opt (kws locationWords), ident]
  yulAssign : R := alt (sym ":=") (seq (sym ":") (sym "="))
  yulCase : R := all [kw "case", yulLiteral, ref .yulBlock]
  yulDefault : R := seq (kw "default") (ref .yulBlock)
  yulLiteral : R := any [token .plainNumber, text, kws ["true", "false"], seq (kw "hex") (token .hexString)]

end Grammar

/-- How deep a source of that many characters may nest, counted in rules. -/
def depthFor (characters : Nat) : Nat := 256 * (characters + 4)

/-- The phrases at the front of a source, and the place behind them. -/
def parsePhrases (source : String) : Option (List Tree × Cursor) :=
  Rule.parse Grammar.rule (depthFor source.length) (.ref .source) (.ofText source.toList)

/-- The phrases of a source, if all of it is read. -/
def parse? (source : String) : Option (List Tree) :=
  match parsePhrases source with
  | some (trees, c) => if c.isEnd then some trees else none
  | none => none

end ContractMigration.Solidity
