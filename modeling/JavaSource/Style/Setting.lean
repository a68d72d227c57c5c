import JavaSource.Style.Basic

/-!
# Settings by name

Each entry of a style has a name of its own, a path of words, under which a style file sets it.
`Styles.switches`, `Styles.amounts` and `Styles.overrides` list the entries; `get_set` and
`set_get` say that a setting reads and writes one and the same place.
-/

namespace JavaSource

/-- A place in a record, with the path of words that names it. -/
structure Setting (σ α : Type) where
  path : List String
  get : σ → α
  set : α → σ → σ
  get_set : ∀ a s, get (set a s) = a
  set_get : ∀ s, set (get s) s = s

namespace Setting

/-- The setting that one word names. -/
def named {σ α : Type} (word : String) (get : σ → α) (set : α → σ → σ)
    (get_set : ∀ a s, get (set a s) = a := by intros; rfl)
    (set_get : ∀ s, set (get s) s = s := by intros; rfl) : Setting σ α :=
  ⟨[word], get, set, get_set, set_get⟩

/-- A setting of a part, as a setting of the whole. -/
def inside {σ τ α : Type} (part : Setting σ τ) (s : Setting τ α) : Setting σ α where
  path := part.path ++ s.path
  get whole := s.get (part.get whole)
  set a whole := part.set (s.set a (part.get whole)) whole
  get_set a whole := by rw [part.get_set, s.get_set]
  set_get whole := by rw [s.set_get, part.set_get]

/-- The record with each setting that has a wanted value set to it. -/
def assign {σ α : Type} (wanted : List String → Option α) (settings : List (Setting σ α)) (s : σ) :
    σ :=
  settings.foldl (fun s place =>
    match wanted place.path with
    | some a => place.set a s
    | none => s) s

/-- The value of each setting, with its path. -/
def entries {σ α : Type} (settings : List (Setting σ α)) (s : σ) : List (List String × α) :=
  settings.map fun place => (place.path, place.get s)

/-- Wanting what is there already changes nothing. -/
theorem assign_get {σ α : Type} (settings : List (Setting σ α)) (s : σ)
    (wanted : List String → Option α)
    (h : ∀ place ∈ settings, wanted place.path = some (place.get s)) :
    assign wanted settings s = s := by
  induction settings with
  | nil => rfl
  | cons place rest ih =>
    have step : assign wanted (place :: rest) s = assign wanted rest s := by
      simp [assign, h place (by simp), place.set_get]
    rw [step]
    exact ih fun other hother => h other (by simp [hother])

end Setting

/-- The settings of blanks before parentheses. -/
def BeforeParentheses.settings : List (Setting BeforeParentheses Bool) :=
  [.named "method_declaration" (·.methodDeclaration) fun a s => { s with methodDeclaration := a },
    .named "method_call" (·.methodCall) fun a s => { s with methodCall := a },
    .named "if_parentheses" (·.ifCondition) fun a s => { s with ifCondition := a },
    .named "for_parentheses" (·.forHeader) fun a s => { s with forHeader := a },
    .named "while_parentheses" (·.whileCondition) fun a s => { s with whileCondition := a },
    .named "switch_parentheses" (·.switchSelector) fun a s => { s with switchSelector := a },
    .named "try_parentheses" (·.tryResources) fun a s => { s with tryResources := a },
    .named "catch_parentheses" (·.catchParameter) fun a s => { s with catchParameter := a },
    .named "synchronized_parentheses" (·.synchronizedLock)
      fun a s => { s with synchronizedLock := a },
    .named "annotation_parameters" (·.annotationArguments)
      fun a s => { s with annotationArguments := a }]

/-- The settings of blanks around operators. -/
def AroundOperators.settings : List (Setting AroundOperators Bool) :=
  [.named "assignment" (·.assignment) fun a s => { s with assignment := a },
    .named "logical" (·.logical) fun a s => { s with logical := a },
    .named "equality" (·.equality) fun a s => { s with equality := a },
    .named "relational" (·.relational) fun a s => { s with relational := a },
    .named "bitwise" (·.bitwise) fun a s => { s with bitwise := a },
    .named "additive" (·.additive) fun a s => { s with additive := a },
    .named "multiplicative" (·.multiplicative) fun a s => { s with multiplicative := a },
    .named "shift" (·.shift) fun a s => { s with shift := a },
    .named "unary" (·.unary) fun a s => { s with unary := a },
    .named "lambda_arrow" (·.lambdaArrow) fun a s => { s with lambdaArrow := a }]

/-- The settings of blanks before braces. -/
def BeforeBrace.settings : List (Setting BeforeBrace Bool) :=
  [.named "class_left_brace" (·.classBody) fun a s => { s with classBody := a },
    .named "method_left_brace" (·.methodBody) fun a s => { s with methodBody := a },
    .named "if_left_brace" (·.ifBody) fun a s => { s with ifBody := a },
    .named "else_left_brace" (·.elseBody) fun a s => { s with elseBody := a },
    .named "for_left_brace" (·.forBody) fun a s => { s with forBody := a },
    .named "while_left_brace" (·.whileBody) fun a s => { s with whileBody := a },
    .named "do_left_brace" (·.doBody) fun a s => { s with doBody := a },
    .named "switch_left_brace" (·.switchBody) fun a s => { s with switchBody := a },
    .named "try_left_brace" (·.tryBody) fun a s => { s with tryBody := a },
    .named "catch_left_brace" (·.catchBody) fun a s => { s with catchBody := a },
    .named "finally_left_brace" (·.finallyBody) fun a s => { s with finallyBody := a },
    .named "synchronized_left_brace" (·.synchronizedBody)
      fun a s => { s with synchronizedBody := a },
    .named "array_initializer_left_brace" (·.arrayValues) fun a s => { s with arrayValues := a },
    .named "annotation_array_initializer_left_brace" (·.annotationArrayValues)
      fun a s => { s with annotationArrayValues := a }]

/-- The settings of blanks before keywords. -/
def BeforeKeywords.settings : List (Setting BeforeKeywords Bool) :=
  [.named "else_keyword" (·.elseKeyword) fun a s => { s with elseKeyword := a },
    .named "while_keyword" (·.whileKeyword) fun a s => { s with whileKeyword := a },
    .named "catch_keyword" (·.catchKeyword) fun a s => { s with catchKeyword := a },
    .named "finally_keyword" (·.finallyKeyword) fun a s => { s with finallyKeyword := a }]

/-- The settings of blanks inside delimiters. -/
def WithinDelimiters.settings : List (Setting WithinDelimiters Bool) :=
  [.named "code_braces" (·.codeBraces) fun a s => { s with codeBraces := a },
    .named "brackets" (·.brackets) fun a s => { s with brackets := a },
    .named "array_initializer_braces" (·.arrayValues) fun a s => { s with arrayValues := a },
    .named "empty_array_initializer_braces" (·.emptyArrayValues)
      fun a s => { s with emptyArrayValues := a },
    .named "grouping_parentheses" (·.parentheses) fun a s => { s with parentheses := a },
    .named "method_declaration_parentheses" (·.methodParameters)
      fun a s => { s with methodParameters := a },
    .named "empty_method_declaration_parentheses" (·.emptyMethodParameters)
      fun a s => { s with emptyMethodParameters := a },
    .named "method_call_parentheses" (·.methodArguments) fun a s => { s with methodArguments := a },
    .named "empty_method_call_parentheses" (·.emptyMethodArguments)
      fun a s => { s with emptyMethodArguments := a },
    .named "if_parentheses" (·.ifCondition) fun a s => { s with ifCondition := a },
    .named "for_parentheses" (·.forHeader) fun a s => { s with forHeader := a },
    .named "while_parentheses" (·.whileCondition) fun a s => { s with whileCondition := a },
    .named "switch_parentheses" (·.switchSelector) fun a s => { s with switchSelector := a },
    .named "try_parentheses" (·.tryResources) fun a s => { s with tryResources := a },
    .named "catch_parentheses" (·.catchParameter) fun a s => { s with catchParameter := a },
    .named "synchronized_parentheses" (·.synchronizedLock)
      fun a s => { s with synchronizedLock := a },
    .named "type_cast_parentheses" (·.typeCast) fun a s => { s with typeCast := a },
    .named "annotation_parentheses" (·.annotationArguments)
      fun a s => { s with annotationArguments := a },
    .named "angle_brackets" (·.angleBrackets) fun a s => { s with angleBrackets := a }]

/-- The settings of blanks in conditional expressions. -/
def AroundTernary.settings : List (Setting AroundTernary Bool) :=
  [.named "before_question_mark" (·.beforeQuestion) fun a s => { s with beforeQuestion := a },
    .named "after_question_mark" (·.afterQuestion) fun a s => { s with afterQuestion := a },
    .named "before_colon" (·.beforeColon) fun a s => { s with beforeColon := a },
    .named "after_colon" (·.afterColon) fun a s => { s with afterColon := a }]

/-- The settings of blanks in type arguments. -/
def InTypeArguments.settings : List (Setting InTypeArguments Bool) :=
  [.named "after_comma" (·.afterComma) fun a s => { s with afterComma := a },
    .named "before_opening_angle_bracket" (·.beforeOpening)
      fun a s => { s with beforeOpening := a },
    .named "after_closing_angle_bracket" (·.afterClosing) fun a s => { s with afterClosing := a }]

/-- The settings of blanks in type parameters. -/
def InTypeParameters.settings : List (Setting InTypeParameters Bool) :=
  [.named "before_opening_angle_bracket" (·.beforeOpening)
      fun a s => { s with beforeOpening := a },
    .named "around_type_bounds" (·.aroundBounds) fun a s => { s with aroundBounds := a }]

/-- The settings of blanks around separators. -/
def AroundSeparators.settings : List (Setting AroundSeparators Bool) :=
  [.named "before_comma" (·.beforeComma) fun a s => { s with beforeComma := a },
    .named "after_comma" (·.afterComma) fun a s => { s with afterComma := a },
    .named "before_for_semicolon" (·.beforeForSemicolon)
      fun a s => { s with beforeForSemicolon := a },
    .named "after_for_semicolon" (·.afterForSemicolon) fun a s => { s with afterForSemicolon := a },
    .named "after_type_cast" (·.afterTypeCast) fun a s => { s with afterTypeCast := a },
    .named "before_colon_in_for_each" (·.beforeForEachColon)
      fun a s => { s with beforeForEachColon := a },
    .named "inside_one_line_enum_braces" (·.emptyEnumBraces)
      fun a s => { s with emptyEnumBraces := a }]

/-- The settings of blank lines. -/
def BlankLineStyle.settings : List (Setting BlankLineStyle Nat) :=
  [.named "keep_maximum_in_code" (·.maximumInCode) fun a s => { s with maximumInCode := a },
    .named "keep_maximum_in_declarations" (·.maximumInDeclarations)
      fun a s => { s with maximumInDeclarations := a },
    .named "keep_maximum_before_end_of_block" (·.maximumBeforeBlockEnd)
      fun a s => { s with maximumBeforeBlockEnd := a },
    .named "minimum_after_package" (·.minimumAfterPackage)
      fun a s => { s with minimumAfterPackage := a },
    .named "minimum_after_imports" (·.minimumAfterImports)
      fun a s => { s with minimumAfterImports := a },
    .named "minimum_around_class" (·.minimumAroundClass)
      fun a s => { s with minimumAroundClass := a },
    .named "minimum_around_method" (·.minimumAroundMethod)
      fun a s => { s with minimumAroundMethod := a },
    .named "minimum_before_method_body" (·.minimumBeforeMethodBody)
      fun a s => { s with minimumBeforeMethodBody := a }]

/-- The settings of columns. -/
def IndentStyle.settings : List (Setting IndentStyle Nat) :=
  [.named "tab_size" (·.tabSize) fun a s => { s with tabSize := a },
    .named "indent_size" (·.indentSize) fun a s => { s with indentSize := a },
    .named "continuation_indent" (·.continuation) fun a s => { s with continuation := a }]

/-- The settings of the blanks between tokens. -/
def Spacing.settings : List (Setting Spacing Bool) :=
  BeforeParentheses.settings.map (Setting.inside (.named "before_parentheses"
      (·.beforeParentheses) fun a s => { s with beforeParentheses := a })) ++
    AroundOperators.settings.map (Setting.inside (.named "around_operators"
      (·.aroundOperators) fun a s => { s with aroundOperators := a })) ++
    BeforeBrace.settings.map (Setting.inside (.named "before_left_brace"
      (·.beforeBrace) fun a s => { s with beforeBrace := a })) ++
    BeforeKeywords.settings.map (Setting.inside (.named "before_keywords"
      (·.beforeKeywords) fun a s => { s with beforeKeywords := a })) ++
    WithinDelimiters.settings.map (Setting.inside (.named "within"
      (·.within) fun a s => { s with within := a })) ++
    AroundTernary.settings.map (Setting.inside (.named "ternary_operator"
      (·.ternary) fun a s => { s with ternary := a })) ++
    InTypeArguments.settings.map (Setting.inside (.named "type_arguments"
      (·.typeArguments) fun a s => { s with typeArguments := a })) ++
    InTypeParameters.settings.map (Setting.inside (.named "type_parameters"
      (·.typeParameters) fun a s => { s with typeParameters := a })) ++
    AroundSeparators.settings.map (Setting.inside (.named "other"
      (·.separators) fun a s => { s with separators := a }))

namespace Styles

/-- The indents, as a part of the styles. -/
def indentPart : Setting Styles IndentStyle :=
  .named "tabs_and_indents" (·.indents) fun a s => { s with indents := a }

/-- The settings that are on or off. -/
def switches : List (Setting Styles Bool) :=
  [indentPart.inside (.named "use_tab_character" (·.useTabs) fun a s => { s with useTabs := a }),
    ⟨["general", "use_crlf_new_lines"], (·.useCrlf), fun a s => { s with useCrlf := a },
      fun _ _ => rfl, fun _ => rfl⟩] ++
    Spacing.settings.map (Setting.inside (.named "spaces"
      (·.spacing) fun a s => { s with spacing := a }))

/-- The settings that are a number of columns or lines. -/
def amounts : List (Setting Styles Nat) :=
  IndentStyle.settings.map (Setting.inside indentPart) ++
    BlankLineStyle.settings.map (Setting.inside (.named "blank_lines"
      (·.blankLines) fun a s => { s with blankLines := a }))

/-- The settings that may be absent. -/
def overrides : List (Setting Styles (Option Bool)) :=
  [.named "empty_for_initializer_pad" (·.emptyForInit) fun a s => { s with emptyForInit := a },
    .named "empty_for_iterator_pad" (·.emptyForUpdate) fun a s => { s with emptyForUpdate := a }]

end Styles

end JavaSource
