import AccessRules.Json.Printer
import AccessRules.Json.Reader
import AccessRules.Rule

/-! JSON text of subjects: their names. -/
namespace AccessRules.Subject

def reader : Json.Reader Subject := do pure (ofName (← Json.Reader.text))

def ofJson (s : String) : Except Json.Fault Subject := Json.Reader.run reader s

def toJson (subject : Subject) : String := Json.quote subject.name

end AccessRules.Subject
