import SchemaLang.Main
import SchemaLang.Proofs.Arena.Depth
import SchemaLang.Proofs.Arena.Edits
import SchemaLang.Proofs.Arena.Growth
import SchemaLang.Proofs.Arena.Home
import SchemaLang.Proofs.Arena.Legible
import SchemaLang.Proofs.Arena.Nodes
import SchemaLang.Proofs.Arena.Registration
import SchemaLang.Proofs.Arena.Traversal
import SchemaLang.Proofs.Arena.Walk
import SchemaLang.Proofs.Grammar.Acceptance
import SchemaLang.Proofs.Grammar.Answering
import SchemaLang.Proofs.Grammar.ArgumentLiterals
import SchemaLang.Proofs.Grammar.Constants
import SchemaLang.Proofs.Grammar.Declarations
import SchemaLang.Proofs.Grammar.Editing
import SchemaLang.Proofs.Grammar.EnumLiterals
import SchemaLang.Proofs.Grammar.Expressions
import SchemaLang.Proofs.Grammar.Failing
import SchemaLang.Proofs.Grammar.Forest
import SchemaLang.Proofs.Grammar.ImportSites
import SchemaLang.Proofs.Grammar.Imports
import SchemaLang.Proofs.Grammar.Numbers
import SchemaLang.Proofs.Grammar.Operations
import SchemaLang.Proofs.Grammar.Ownership
import SchemaLang.Proofs.Grammar.Packages
import SchemaLang.Proofs.Grammar.Progress
import SchemaLang.Proofs.Grammar.Reading
import SchemaLang.Proofs.Grammar.Scripts
import SchemaLang.Proofs.Grammar.Streaming
import SchemaLang.Proofs.Grammar.Tokens
import SchemaLang.Proofs.Grammar.Trailing
import SchemaLang.Proofs.Grammar.Walking
import SchemaLang.Proofs.Layout.Bare
import SchemaLang.Proofs.Layout.Compiling
import SchemaLang.Proofs.Layout.Reading
import SchemaLang.Proofs.Layout.Script
import SchemaLang.Proofs.Link.Binding
import SchemaLang.Proofs.Link.Copying
import SchemaLang.Proofs.Link.Cycles
import SchemaLang.Proofs.Link.Editing
import SchemaLang.Proofs.Link.Finished
import SchemaLang.Proofs.Link.FlatNames
import SchemaLang.Proofs.Link.Flattening
import SchemaLang.Proofs.Link.Linking
import SchemaLang.Proofs.Link.Masks
import SchemaLang.Proofs.Link.Outlining
import SchemaLang.Proofs.Link.Parents
import SchemaLang.Proofs.Link.Passes
import SchemaLang.Proofs.Link.Placeable
import SchemaLang.Proofs.Link.Placing
import SchemaLang.Proofs.Link.Relinking
import SchemaLang.Proofs.Link.Relocating
import SchemaLang.Proofs.Link.Reordering
import SchemaLang.Proofs.Link.Resting
import SchemaLang.Proofs.Link.Scene
import SchemaLang.Proofs.Link.Settled
import SchemaLang.Proofs.Link.Shuffling
import SchemaLang.Proofs.Link.Sites
import SchemaLang.Proofs.Link.Tagging
import SchemaLang.Proofs.Link.Upright
import SchemaLang.Proofs.Outcome
import SchemaLang.Proofs.Provider
import SchemaLang.Proofs.Provider.Memory
import SchemaLang.Proofs.Provider.Names
import SchemaLang.Proofs.Provider.Places
import SchemaLang.Proofs.Session.Access
import SchemaLang.Proofs.Session.Arguments
import SchemaLang.Proofs.Session.Comments
import SchemaLang.Proofs.Session.Compiling
import SchemaLang.Proofs.Session.Cycles
import SchemaLang.Proofs.Session.Editing
import SchemaLang.Proofs.Session.Files
import SchemaLang.Proofs.Session.History
import SchemaLang.Proofs.Session.Importing
import SchemaLang.Proofs.Session.Keywords
import SchemaLang.Proofs.Session.Outlines
import SchemaLang.Proofs.Session.Placement
import SchemaLang.Proofs.Session.Relinking
import SchemaLang.Proofs.Session.Reordering
import SchemaLang.Proofs.Session.Resolution
import SchemaLang.Proofs.Session.Termination
import SchemaLang.Proofs.Session.Traversal
import SchemaLang.Proofs.Session.Trees
import SchemaLang.Proofs.Session.WellFormed
import SchemaLang.Proofs.Text.Lines
import SchemaLang.Proofs.Text.Raw
import SchemaLang.Proofs.Token.Integers
import SchemaLang.Proofs.Token.Positions
import SchemaLang.Proofs.Token.Printing
import SchemaLang.Proofs.Token.Separation
import SchemaLang.Proofs.Token.Tiling
import SchemaLang.Provider.Memory
