import RootLake.Reader.SemanticTypes

/-!
# Printed template types

A template type is a name, arguments between angle brackets, and what stands behind them. Only
the brackets and the commas between arguments have a meaning for `TemplateArguments`; printed
types give their arguments back (`templateArguments_print`).
-/

namespace RootLake.SemanticTypes

/-! ### Type expressions -/

/-- A text without brackets and commas. -/
structure NameText where
  text : List Char
  plain : ∀ c ∈ text, c ≠ '<' ∧ c ≠ '>' ∧ c ≠ ','

/-- What `TrimType` takes away around a type. -/
structure Blanks where
  text : List Char
  blank : ∀ c ∈ text, c = ' ' ∨ c = '\t' ∨ c = '\r' ∨ c = '\n'

mutual

/-- A name, or a template with its arguments and what stands behind them. -/
inductive TypeExpr where
  | name (text : NameText)
  | template (name : NameText) (arguments : TypeArguments) (behind : NameText)

/-- At least one argument, each with the blanks around it. -/
inductive TypeArguments where
  | last (before : Blanks) (argument : TypeExpr) (after : Blanks)
  | cons (before : Blanks) (argument : TypeExpr) (after : Blanks) (rest : TypeArguments)

end

mutual

def TypeExpr.print : TypeExpr → List Char
  | .name text => text.text
  | .template name arguments behind =>
      name.text ++ '<' :: (arguments.print ++ '>' :: behind.text)

def TypeArguments.print : TypeArguments → List Char
  | .last before argument after => before.text ++ (argument.print ++ after.text)
  | .cons before argument after rest =>
      before.text ++ (argument.print ++ (after.text ++ ',' :: rest.print))

end

/-- The arguments in their order. -/
def TypeArguments.toList : TypeArguments → List TypeExpr
  | .last _ argument _ => [argument]
  | .cons _ argument _ rest => argument :: rest.toList

/-! ### Scanning -/

theorem scan_plain {text : List Char} (h : ∀ c ∈ text, c ≠ '<' ∧ c ≠ '>' ∧ c ≠ ',')
    (rest : List Char) (depth : Nat) (token : List Char) (found : List String) :
    templateArgumentsFrom (text ++ rest) depth token found =
      templateArgumentsFrom rest depth (token ++ text) found := by
  induction text generalizing token with
  | nil => rw [List.nil_append, List.append_nil]
  | cons c text ih =>
    obtain ⟨hopen, hclose, hcomma⟩ := h c List.mem_cons_self
    rw [List.cons_append, templateArgumentsFrom, ih fun d hd => h d (List.mem_cons_of_mem _ hd),
      List.append_assoc, List.singleton_append]
    all_goals simp_all

theorem Blanks.plain (blanks : Blanks) : ∀ c ∈ blanks.text, c ≠ '<' ∧ c ≠ '>' ∧ c ≠ ',' := by
  intro c hc
  rcases blanks.blank c hc with rfl | rfl | rfl | rfl <;> decide

mutual

/-- A type is read as one piece of the token, at any depth. -/
theorem scan_type (type : TypeExpr) (rest : List Char) (depth : Nat) (token : List Char)
    (found : List String) :
    templateArgumentsFrom (type.print ++ rest) depth token found =
      templateArgumentsFrom rest depth (token ++ type.print) found := by
  cases type with
  | name text => exact scan_plain text.plain rest depth token found
  | template name arguments behind =>
    rw [TypeExpr.print, List.append_assoc, scan_plain name.plain, List.cons_append,
      templateArgumentsFrom, List.append_assoc, scan_arguments arguments, List.cons_append,
      templateArgumentsFrom, scan_plain behind.plain]
    simp only [List.append_assoc, List.cons_append, List.nil_append]

/-- Inside of brackets so are arguments and their commas. -/
theorem scan_arguments (arguments : TypeArguments) (rest : List Char) (depth : Nat)
    (token : List Char) (found : List String) :
    templateArgumentsFrom (arguments.print ++ rest) (depth + 1) token found =
      templateArgumentsFrom rest (depth + 1) (token ++ arguments.print) found := by
  cases arguments with
  | last before argument after =>
    rw [TypeArguments.print, List.append_assoc, scan_plain before.plain, List.append_assoc,
      scan_type argument, scan_plain after.plain]
    simp only [List.append_assoc]
  | cons before argument after more =>
    rw [TypeArguments.print, List.append_assoc, scan_plain before.plain, List.append_assoc,
      scan_type argument, List.append_assoc, scan_plain after.plain, List.cons_append,
      templateArgumentsFrom, scan_arguments more]
    · simp only [List.append_assoc, List.cons_append, List.nil_append]
    all_goals simp

end

/-! ### Arguments -/

theorem dropWhile_around {p : Char → Bool} {before after : List Char}
    (hbefore : ∀ c ∈ before, p c = true) (hafter : ∀ c ∈ after, p c = true) (type : List Char) :
    (((before ++ (type ++ after)).dropWhile p).reverse.dropWhile p).reverse =
      ((type.dropWhile p).reverse.dropWhile p).reverse := by
  have hall {text : List Char} (h : ∀ c ∈ text, p c = true) : text.dropWhile p = [] :=
    List.dropWhile_eq_nil_iff.mpr h
  rw [List.dropWhile_append_of_pos hbefore, List.dropWhile_append]
  split
  · rename_i hempty
    rw [List.isEmpty_iff] at hempty
    rw [hempty, hall hafter]
  · rw [List.reverse_append, List.dropWhile_append_of_pos fun c hc =>
      hafter c (List.mem_reverse.mp hc)]

theorem trimType_blanks (before after : Blanks) (type : List Char) :
    trimType (before.text ++ (type ++ after.text)) = trimType type := by
  have hblank (blanks : Blanks) : ∀ c ∈ blanks.text,
      (decide (c = ' ') || decide (c = '\t') || decide (c = '\r') || decide (c = '\n')) = true := by
    intro c hc
    rcases blanks.blank c hc with rfl | rfl | rfl | rfl <;> decide
  unfold trimType
  dsimp only
  rw [dropWhile_around (hblank before) (hblank after)]

def printedArgument (argument : TypeExpr) : String := String.ofList (trimType argument.print)

/-- The arguments of a template are split at their own commas. -/
theorem split_arguments (arguments : TypeArguments) (behind : List Char) (found : List String) :
    templateArgumentsFrom (arguments.print ++ '>' :: behind) 0 [] found =
      found ++ arguments.toList.map printedArgument := by
  cases arguments with
  | last before argument after =>
    rw [TypeArguments.print, List.append_assoc, scan_plain before.plain, List.append_assoc,
      scan_type argument, scan_plain after.plain, templateArgumentsFrom, List.nil_append,
      List.append_assoc, trimType_blanks before after]
    rfl
  | cons before argument after rest =>
    rw [TypeArguments.print, List.append_assoc, scan_plain before.plain, List.append_assoc,
      scan_type argument, List.append_assoc, scan_plain after.plain, List.cons_append,
      templateArgumentsFrom, List.nil_append, List.append_assoc, trimType_blanks before after,
      split_arguments rest behind]
    rw [TypeArguments.toList, List.map_cons, List.append_assoc]
    rfl

/-- The arguments of a printed template are its arguments in their order, each trimmed. -/
theorem templateArguments_print (name : NameText) (arguments : TypeArguments) (behind : NameText) :
    templateArguments (String.ofList (TypeExpr.template name arguments behind).print) =
        arguments.toList.map printedArgument ∧
      extractInnerType (String.ofList (TypeExpr.template name arguments behind).print) =
        (arguments.toList.map printedArgument).headD "" := by
  have hopen : (name.text ++ '<' :: (arguments.print ++ '>' :: behind.text)).dropWhile (· ≠ '<') =
      '<' :: (arguments.print ++ '>' :: behind.text) := by
    rw [List.dropWhile_append_of_pos, List.dropWhile_cons_of_neg (by decide)]
    exact fun c hc => decide_eq_true (name.plain c hc).1
  have harguments : templateArguments
      (String.ofList (TypeExpr.template name arguments behind).print) =
      arguments.toList.map printedArgument := by
    unfold templateArguments
    rw [String.toList_ofList, TypeExpr.print, hopen]
    exact split_arguments arguments behind.text []
  exact ⟨harguments, by rw [extractInnerType, harguments]⟩

end RootLake.SemanticTypes
