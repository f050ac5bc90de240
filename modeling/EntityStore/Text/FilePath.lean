/-!
# Paths of source files

A path is a text whose steps are divided by `/`.  Dividers at the end, and steps `.` other than a first one,
name nothing.  The last step is a file's name unless it is `.`, `..` or missing; the extension is what follows
the last dot of the name, if that dot is not its first character.
-/
namespace EntityStore.FilePath

/-- The path, reversed, without the dividers and single dots at its end. -/
def strippedReversed : List Char → List Char
  | '/' :: rest => strippedReversed rest
  | '.' :: '/' :: rest => strippedReversed rest
  | path => path

/-- The name before its extension. -/
def stemOf (name : List Char) : List Char :=
  let stem := ((name.reverse.dropWhile (· ≠ '.')).drop 1).reverse
  if stem = [] then name else stem

/-- The text up to and with the last divider, and the name of the file. -/
def split? (path : String) : Option (List Char × List Char) :=
  let back := strippedReversed path.toList.reverse
  let name := (back.takeWhile (· ≠ '/')).reverse
  let folder := (back.dropWhile (· ≠ '/')).reverse
  if name = [] ∨ name = ['.'] ∨ name = ['.', '.'] then none else some (folder, name)

/-- The file's name without its extension. -/
def stem? (path : String) : Option String :=
  (split? path).map (fun p => String.ofList (stemOf p.2))

/-- The extension of a name; `none` if the name is all stem. -/
def extensionOf (name : List Char) : Option (List Char) :=
  if stemOf name = name then none else some (name.drop ((stemOf name).length + 1))

/-- The path up to the end of the stem; a path that names no file stays as it is. -/
def upToStem (path : String) : String :=
  match split? path with
  | none => path
  | some (folder, name) => String.ofList (folder ++ stemOf name)

/-- The path without as many characters at its end as the extension has, and then up to the stem of what is left.
Where two dots are left, they stay, because they name no file. -/
def withoutExtension (path : String) : String :=
  match (split? path).bind (fun p => extensionOf p.2) with
  | none => upToStem path
  | some extension => upToStem (String.ofList (path.toList.take (path.length - extension.length)))

end EntityStore.FilePath
