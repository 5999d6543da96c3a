import InfixCalc.Binary64.Shortest
import InfixCalc.Expr
import InfixCalc.Literal
import InfixCalc.ParseError
import InfixCalc.Config
import InfixCalc.Data
import InfixCalc.Codec
import InfixCalc.Parser
import InfixCalc.Json.Printer
import InfixCalc.Json.Reader
import InfixCalc.Json.Codec
import InfixCalc.Expr.Json
import InfixCalc.Config.Json
import InfixCalc.Config.Layering
import InfixCalc.Config.Environment
import InfixCalc.Log
import InfixCalc.Calculate
import InfixCalc.Registry
import InfixCalc.Metrics.Exposition
import InfixCalc.Proofs.Parser.Chain
import InfixCalc.Proofs.Parser.ChainTree
import InfixCalc.Proofs.Grammar
import InfixCalc.Proofs.Parser.Loop
import InfixCalc.Proofs.Parser.Acceptance
import InfixCalc.Proofs.Parser.Limits
import InfixCalc.Proofs.Parser.Unexpected
import InfixCalc.Proofs.Binary64
import InfixCalc.Proofs.Parser.Display
import InfixCalc.Proofs.Parser.Calls
import InfixCalc.Proofs.Parser.Fault
import InfixCalc.Proofs.Parser.Splitting
import InfixCalc.Proofs.Parser.Substitution
import InfixCalc.Proofs.Parser.Leniency
import InfixCalc.Proofs.Metrics.Laws
import InfixCalc.Proofs.Metrics.Session
import InfixCalc.Proofs.Json
import InfixCalc.Proofs.Codec.Laws
import InfixCalc.Proofs.StoredForm
import InfixCalc.Proofs.Stored
import InfixCalc.Proofs.Config.Names
import InfixCalc.Proofs.Config.Words
import InfixCalc.Proofs.Config.Laws
import InfixCalc.Proofs.Config.Layers
import InfixCalc.Proofs.Config.Environment
import InfixCalc.Proofs.Config.Routes
import InfixCalc.Proofs.Parser.LiteralValue
import InfixCalc.Proofs.Parser.TreeLimit
import InfixCalc.Proofs.Parser.Bounds
import InfixCalc.Proofs.Parser.Progress
import InfixCalc.Proofs.Parser.Nodes
import InfixCalc.Proofs.Text.ByteOrder
import InfixCalc.Proofs.Metrics.Samples
import InfixCalc.Proofs.Metrics.ReadBack
