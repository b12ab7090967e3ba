import AccessRules.Main
import AccessRules.Record
import AccessRules.Rule.Json
import AccessRules.Schema.Json
import AccessRules.Proofs.Classification
import AccessRules.Proofs.Comparison
import AccessRules.Proofs.Conjunction
import AccessRules.Proofs.Insertion
import AccessRules.Proofs.KeyOrder
import AccessRules.Proofs.Listing
import AccessRules.Proofs.Negation
import AccessRules.Proofs.Questions
import AccessRules.Proofs.RuleOrder
import AccessRules.Proofs.Spelling
import AccessRules.Proofs.StoreGrowth
import AccessRules.Proofs.Traversal
import AccessRules.Proofs.Vacancy
import AccessRules.Proofs.Dangling
import AccessRules.Proofs.Equality
import AccessRules.Proofs.WrittenRules
