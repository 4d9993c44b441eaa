/-!
# Damage of settings files

What can be wrong with a settings file: it breaks the rules of the language, or it holds a scalar
that stands for no value of the kind that it is of.
-/

namespace BuildFiles.Yaml

/-- Why a scalar stands for no value of its kind. -/
inductive ScalarCause where
  /-- there is no such number, date or character -/
  | noValue
  /-- the value is beyond what can be -/
  | tooLarge
  /-- the text is none of the words for a truth value -/
  | unknownWord
  /-- there is no text -/
  | empty
  /-- the text has not the form of a date -/
  | notDate
  deriving DecidableEq

/-- What is wrong with a settings file. -/
inductive Damage where
  | malformed
  | scalar (cause : ScalarCause)
  deriving DecidableEq

end BuildFiles.Yaml
