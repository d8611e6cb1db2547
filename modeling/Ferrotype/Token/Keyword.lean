/-! # The reserved words -/

namespace Ferrotype

inductive Keyword where
  | asKw | asyncKw | constKw | crateKw | dynKw | enumKw | externKw | falseKw | fnKw | forKw
  | implKw | inKw | letKw | modKw | mutKw | pubKw | refKw | selfValueKw | selfTypeKw | staticKw
  | structKw | superKw | traitKw | trueKw | typeKw | unsafeKw | useKw | whereKw
  deriving Repr, DecidableEq

namespace Keyword

/-- Every keyword, in alphabetical order. -/
def all : List Keyword :=
  [.asKw, .asyncKw, .constKw, .crateKw, .dynKw, .enumKw, .externKw, .falseKw, .fnKw, .forKw,
   .implKw, .inKw, .letKw, .modKw, .mutKw, .pubKw, .refKw, .selfValueKw, .selfTypeKw, .staticKw,
   .structKw, .superKw, .traitKw, .trueKw, .typeKw, .unsafeKw, .useKw, .whereKw]

def text : Keyword → String
  | .asKw => "as"
  | .asyncKw => "async"
  | .constKw => "const"
  | .crateKw => "crate"
  | .dynKw => "dyn"
  | .enumKw => "enum"
  | .externKw => "extern"
  | .falseKw => "false"
  | .fnKw => "fn"
  | .forKw => "for"
  | .implKw => "impl"
  | .inKw => "in"
  | .letKw => "let"
  | .modKw => "mod"
  | .mutKw => "mut"
  | .pubKw => "pub"
  | .refKw => "ref"
  | .selfValueKw => "self"
  | .selfTypeKw => "Self"
  | .staticKw => "static"
  | .structKw => "struct"
  | .superKw => "super"
  | .traitKw => "trait"
  | .trueKw => "true"
  | .typeKw => "type"
  | .unsafeKw => "unsafe"
  | .useKw => "use"
  | .whereKw => "where"

def name : Keyword → String
  | .asKw => "AS"
  | .asyncKw => "ASYNC"
  | .constKw => "CONST"
  | .crateKw => "CRATE"
  | .dynKw => "DYN"
  | .enumKw => "ENUM"
  | .externKw => "EXTERN"
  | .falseKw => "FALSE"
  | .fnKw => "FN"
  | .forKw => "FOR"
  | .implKw => "IMPL"
  | .inKw => "IN"
  | .letKw => "LET"
  | .modKw => "MOD"
  | .mutKw => "MUT"
  | .pubKw => "PUB"
  | .refKw => "REF"
  | .selfValueKw => "SELF_VALUE"
  | .selfTypeKw => "SELF_TYPE"
  | .staticKw => "STATIC"
  | .structKw => "STRUCT"
  | .superKw => "SUPER"
  | .traitKw => "TRAIT"
  | .trueKw => "TRUE"
  | .typeKw => "TYPE"
  | .unsafeKw => "UNSAFE"
  | .useKw => "USE"
  | .whereKw => "WHERE"

def ofText? (word : String) : Option Keyword := all.find? fun k => k.text == word

theorem ofText?_text (k : Keyword) : ofText? k.text = some k := by cases k <;> decide

theorem text_eq_of_ofText? {word : String} {k : Keyword} (h : ofText? word = some k) :
    k.text = word := by
  simpa using List.find?_some h

end Keyword

end Ferrotype
