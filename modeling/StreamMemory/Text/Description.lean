/-!
# Descriptions

A description is the text of a structured value in two forms: on one line, and as a block of
lines in which every field or item has a line of its own.
-/

set_option autoImplicit false

namespace StreamMemory

structure Description where
  line : String
  block : List String

namespace Description

def atom (text : String) : Description := ⟨text, [text]⟩

def nat (n : Nat) : Description := atom (toString n)

def bool (b : Bool) : Description := atom (toString b)

def startWith (label : String) : List String → List String
  | [] => []
  | l :: ls => (label ++ l) :: ls

def endWith (mark : String) : List String → List String
  | [] => []
  | [l] => [l ++ mark]
  | l :: ls => l :: endWith mark ls

@[simp] theorem length_startWith (label : String) (ls : List String) :
    (startWith label ls).length = ls.length := by
  cases ls <;> rfl

@[simp] theorem length_endWith (mark : String) (ls : List String) :
    (endWith mark ls).length = ls.length := by
  fun_induction endWith <;> simp_all

/-- The lines of one part of a block: indented, labelled, closed by a comma. -/
def part (label : String) (d : Description) : List String :=
  (startWith label (endWith "," d.block)).map ("    " ++ ·)

theorem length_part (label : String) (d : Description) : (part label d).length = d.block.length := by
  simp [part]

def parts (fields : List (String × Description)) : List String :=
  fields.flatMap fun (label, d) => part (label ++ ": ") d

def fieldTexts (fields : List (String × Description)) : List String :=
  fields.map fun (label, d) => label ++ ": " ++ d.line

/-- A value with named fields, all of them shown. -/
def record (name : String) (fields : List (String × Description)) : Description where
  line := name ++ " \x7b " ++ ", ".intercalate (fieldTexts fields) ++ " \x7d"
  block := (name ++ " \x7b") :: parts fields ++ ["\x7d"]

/-- A value with named fields and others that are not shown. -/
def openRecord (name : String) (fields : List (String × Description)) : Description where
  line := name ++ " \x7b " ++ ", ".intercalate (fieldTexts fields ++ [".."]) ++ " \x7d"
  block := (name ++ " \x7b") :: parts fields ++ ["    ..", "\x7d"]

/-- A value with unnamed items. -/
def tuple (name : String) (items : List Description) : Description where
  line := name ++ "(" ++ ", ".intercalate (items.map line) ++ ")"
  block := (name ++ "(") :: items.flatMap (part "") ++ [")"]

/-- The text of a value, on one line or as a block. -/
def text (d : Description) (pretty : Bool) : String :=
  if pretty then "\n".intercalate d.block else d.line

end Description

end StreamMemory
