import ProjectScript.Main
import ProjectScript.Proofs.Template.Expansion
import ProjectScript.Proofs.Template.Strict
import ProjectScript.Proofs.Template.Depth
import ProjectScript.Proofs.Template.Stack
import ProjectScript.Proofs.Template.Word
import ProjectScript.Proofs.Template.Cutting
import ProjectScript.Proofs.Template.Scopes
import ProjectScript.Proofs.Template.Absence
import ProjectScript.Proofs.Template.Binding
import ProjectScript.Proofs.Template.Argument
import ProjectScript.Proofs.Template.WholeCall
import ProjectScript.Proofs.Template.Required
import ProjectScript.Proofs.Template.Surrounding
import ProjectScript.Proofs.Template.KeyPaths
import ProjectScript.Proofs.CallArguments.Splitting
import ProjectScript.Proofs.CallArguments.Quoted
import ProjectScript.Proofs.CallArguments.Bare
import ProjectScript.Proofs.CallArguments.Separators
import ProjectScript.Proofs.Plan.Sequence
import ProjectScript.Proofs.Dialect.Reading
import ProjectScript.Proofs.Dialect.Literals
import ProjectScript.Proofs.Plan.Bracket
import ProjectScript.Proofs.Plan.BlankLines
import ProjectScript.Proofs.Plan.Words
import ProjectScript.Proofs.Plan.Services
import ProjectScript.Proofs.Plan.Listing
import ProjectScript.Proofs.Json.Printed
import ProjectScript.Proofs.Plan.Exchange
import ProjectScript.Proofs.FileSystem.Content
import ProjectScript.Proofs.FileSystem.Directories
import ProjectScript.Proofs.FileSystem.Growth
import ProjectScript.Proofs.Outcome
import ProjectScript.Proofs.Path.Absolute
import ProjectScript.Proofs.Path.Clean
import ProjectScript.Proofs.Path.Lenient
import ProjectScript.Proofs.Yaml.Passage
import ProjectScript.Proofs.Yaml.Plain
import ProjectScript.Proofs.Yaml.Quoted
import ProjectScript.Proofs.Yaml.Literal
import ProjectScript.Proofs.Yaml.Next
import ProjectScript.Proofs.Yaml.Styled
import ProjectScript.Proofs.Yaml.Scalar
import ProjectScript.Proofs.Yaml.Run
import ProjectScript.Proofs.Yaml.Tree
import ProjectScript.Proofs.Registry.File
import ProjectScript.Proofs.Registry.Entry
import ProjectScript.Proofs.Registry.Step
import ProjectScript.Proofs.Registry.History
import ProjectScript.Proofs.Registry.Confinement
import ProjectScript.Proofs.Registry.Tokens
import ProjectScript.Proofs.Registry.Document
import ProjectScript.Proofs.Registry.RoundTrip
import ProjectScript.Proofs.Registry.Resolution
import ProjectScript.Proofs.CommandLine.Options
import ProjectScript.Proofs.Decode.RoundTrip
import ProjectScript.Proofs.Session.Output
import ProjectScript.Proofs.Session.Script
import ProjectScript.Proofs.Session.Report
import ProjectScript.Proofs.Session.Address
