import Polyglot.Decode.Reader
import Polyglot.Invocation
import Polyglot.Json.Access
import Polyglot.Proofs.Header
import Polyglot.Proofs.LuaNames
import Polyglot.Proofs.Supported
import Polyglot.Registry
import Polyglot.Script
import Polyglot.Tree.DataObject
import Polyglot.Proofs.Balance
import Polyglot.Proofs.Imported
import Polyglot.Proofs.DataObjects
import Polyglot.Proofs.Decoded
import Polyglot.Proofs.DistinctNames
import Polyglot.Proofs.JsonText
import Polyglot.Proofs.Written
import Polyglot.Proofs.ReadBack
import Polyglot.Proofs.Margins
import Polyglot.Proofs.RawTexts
import Polyglot.Proofs.Repetition
import Polyglot.Proofs.Scan
import Polyglot.Proofs.GroovyNesting
import Polyglot.Proofs.LuaNesting
import Polyglot.Proofs.Lookups
import Polyglot.Proofs.Registered
import Polyglot.Proofs.GroovyNames
import Polyglot.Proofs.JsonTokens
import Polyglot.Proofs.JsonTree
import Polyglot.Proofs.Variations
import Polyglot.Proofs.VariedTexts
import Polyglot.Proofs.Undisturbed
import Polyglot.Proofs.LuaConditionals
import Polyglot.Proofs.LuaReturns
import Polyglot.Proofs.LuaSeams
import Polyglot.Proofs.PrefixOperators
import Polyglot.Proofs.Inline
import Polyglot.Proofs.Escapes
import Polyglot.Proofs.Interpolation
import Polyglot.Proofs.TextObjects
import Polyglot.Proofs.BareNames
import Polyglot.Proofs.QuotedLiterals
import Polyglot.Proofs.Succession
import Polyglot.Proofs.AbandonedPasses
import Polyglot.Proofs.Alike
import Polyglot.Proofs.Unnesting
import Polyglot.Proofs.Invocations
import Polyglot.Proofs.PropertyPlaces
import Polyglot.Proofs.StatementLines
import Polyglot.Proofs.PageRuns
import Polyglot.Proofs.ContainerLayout
import Polyglot.Proofs.ScriptRuns
