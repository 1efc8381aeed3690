import SchemaGuard.Main
import SchemaGuard.Proofs.Value.SameData
import SchemaGuard.Proofs.Validator.Acceptance
import SchemaGuard.Proofs.Value.Join
import SchemaGuard.Proofs.Validator.Cleaning
import SchemaGuard.Proofs.Compile.Shape
import SchemaGuard.Proofs.Compile.Cleaned
import SchemaGuard.Proofs.Compile.Required
import SchemaGuard.Proofs.Schema.Meaning
import SchemaGuard.Proofs.Schema.Agreement
import SchemaGuard.Proofs.Validator.Closedness
import SchemaGuard.Proofs.Compile.Modes
import SchemaGuard.Proofs.MetaSchema.Bounds
import SchemaGuard.Proofs.Tool.Guard
import SchemaGuard.Proofs.Validator.Findings
import SchemaGuard.Proofs.Validator.Reporting
import SchemaGuard.Proofs.Compile.Reports
import SchemaGuard.Proofs.Pointer.Tokens
import SchemaGuard.Proofs.Validator.Messages
import SchemaGuard.Proofs.Validator.Reporters
import SchemaGuard.Proofs.Compile.Addresses
import SchemaGuard.Proofs.Value.Location
import SchemaGuard.Proofs.Validator.Asking
import SchemaGuard.Proofs.Compile.Places
import SchemaGuard.Proofs.Compile.Faults
import SchemaGuard.Proofs.MetaSchema.Demands
import SchemaGuard.Proofs.Compile.Safety
import SchemaGuard.Proofs.Value.Entries
import SchemaGuard.Proofs.Validator.Gathering
import SchemaGuard.Proofs.Compile.Relabeling
import SchemaGuard.Proofs.Compile.AllOf
import SchemaGuard.Proofs.Value.Canonical
import SchemaGuard.Proofs.Validator.Congruence
import SchemaGuard.Proofs.Compile.Congruence
import SchemaGuard.Proofs.Compile.Lossless
import SchemaGuard.Proofs.Tool.Preparation
import SchemaGuard.Proofs.Compile.Encounters
import SchemaGuard.Proofs.Compile.Origins
import SchemaGuard.Proofs.Compile.Refusals
import SchemaGuard.Proofs.Tool.Reading
import SchemaGuard.Proofs.Tool.Unfit
import SchemaGuard.Proofs.Tool.Registration
import SchemaGuard.Proofs.Tool.Listing
import SchemaGuard.Proofs.Compile.Trails
import SchemaGuard.Proofs.Tool.Pointers
import SchemaGuard.Proofs.MetaSchema.Rules
import SchemaGuard.Proofs.MetaSchema.Locations
import SchemaGuard.Proofs.Schema.Extension
import SchemaGuard.Proofs.MetaSchema.Tolerance
import SchemaGuard.Proofs.Compile.VendorKeywords
import SchemaGuard.Proofs.Value.Structural
import SchemaGuard.Proofs.Compile.Relocation
import SchemaGuard.Proofs.Compile.Visits
import SchemaGuard.Proofs.Compile.Unvisited
import SchemaGuard.Proofs.Compile.Blame
import SchemaGuard.Proofs.Pattern.Strict
import SchemaGuard.Proofs.Pattern.Tokens
import SchemaGuard.Proofs.Pattern.Mirror
import SchemaGuard.Proofs.Pattern.Readers
import SchemaGuard.Proofs.Pattern.EndAnchors
import SchemaGuard.Proofs.Pattern.Faults
import SchemaGuard.Proofs.Compile.Patterns
import SchemaGuard.Proofs.Timestamp.Grammar
import SchemaGuard.Proofs.Schema.Context
import SchemaGuard.Proofs.Validator.Refinement
import SchemaGuard.Proofs.Compile.Contexts
import SchemaGuard.Proofs.TypeDecl.Flagging
import SchemaGuard.Proofs.MetaSchema.Repeats
import SchemaGuard.Proofs.TypeDecl.Admission
import SchemaGuard.Proofs.MetaSchema.KeyOrder
