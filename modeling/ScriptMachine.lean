import ScriptMachine.Binary.Magnitude
import ScriptMachine.Builder.Draft
import ScriptMachine.Builder.Fusion
import ScriptMachine.Builder.Nesting
import ScriptMachine.Bytecode.Instruction
import ScriptMachine.Bytecode.Listing
import ScriptMachine.Bytecode.Literal
import ScriptMachine.Bytecode.Opcode
import ScriptMachine.Bytecode.Prototype
import ScriptMachine.Bytecode.Stored
import ScriptMachine.Complex
import ScriptMachine.Decimal.Layout
import ScriptMachine.Decimal.Shortest
import ScriptMachine.Error
import ScriptMachine.Heap.Chain
import ScriptMachine.Heap.Class
import ScriptMachine.Heap.Collector
import ScriptMachine.Heap.Containers
import ScriptMachine.Heap.Display
import ScriptMachine.Heap.Entries
import ScriptMachine.Heap.Equality
import ScriptMachine.Heap.Members
import ScriptMachine.Heap.Native
import ScriptMachine.Heap.Object
import ScriptMachine.Heap.Store
import ScriptMachine.Heap.View
import ScriptMachine.Host.CommandLine
import ScriptMachine.Host.Folder
import ScriptMachine.Host.Session
import ScriptMachine.Host.Toolbox
import ScriptMachine.Json.Basic
import ScriptMachine.Json.Number
import ScriptMachine.Json.Reading
import ScriptMachine.Json.Writing
import ScriptMachine.Machine.Calls
import ScriptMachine.Machine.Construction
import ScriptMachine.Machine.Frames
import ScriptMachine.Machine.Globals
import ScriptMachine.Machine.Iteration
import ScriptMachine.Machine.Members
import ScriptMachine.Machine.Natives
import ScriptMachine.Machine.OpenOuters
import ScriptMachine.Machine.Registers
import ScriptMachine.Machine.Run
import ScriptMachine.Machine.State
import ScriptMachine.Machine.Step
import ScriptMachine.Machine.TypeMethods
import ScriptMachine.Main
import ScriptMachine.Operators
import ScriptMachine.Proofs.Binary.Comparing
import ScriptMachine.Proofs.Binary.Rounding
import ScriptMachine.Proofs.Builder.Labels
import ScriptMachine.Proofs.Builder.Lines
import ScriptMachine.Proofs.Builder.Literals
import ScriptMachine.Proofs.Builder.Locals
import ScriptMachine.Proofs.Builder.Marks
import ScriptMachine.Proofs.Builder.Operations
import ScriptMachine.Proofs.Builder.Parts
import ScriptMachine.Proofs.Builder.Registers
import ScriptMachine.Proofs.Builder.Requests
import ScriptMachine.Proofs.Builder.Resolution
import ScriptMachine.Proofs.Bytecode.Records
import ScriptMachine.Proofs.Bytecode.Storing
import ScriptMachine.Proofs.Bytecode.WellFormed
import ScriptMachine.Proofs.Fusion.Actions
import ScriptMachine.Proofs.Fusion.Agreement
import ScriptMachine.Proofs.Fusion.Emission
import ScriptMachine.Proofs.Fusion.Locals
import ScriptMachine.Proofs.Fusion.Rules
import ScriptMachine.Proofs.Fusion.Scenes
import ScriptMachine.Proofs.Fusion.Staleness
import ScriptMachine.Proofs.Heap.Accounts
import ScriptMachine.Proofs.Heap.Allocation
import ScriptMachine.Proofs.Heap.Backing
import ScriptMachine.Proofs.Heap.Bisimilarity
import ScriptMachine.Proofs.Heap.Classes
import ScriptMachine.Proofs.Heap.Clearing
import ScriptMachine.Proofs.Heap.Collection
import ScriptMachine.Proofs.Heap.Copying
import ScriptMachine.Proofs.Heap.Defaults
import ScriptMachine.Proofs.Heap.Editing
import ScriptMachine.Proofs.Heap.Isomorphism
import ScriptMachine.Proofs.Heap.Kindred
import ScriptMachine.Proofs.Heap.Kinds
import ScriptMachine.Proofs.Heap.Layout
import ScriptMachine.Proofs.Heap.Lookups
import ScriptMachine.Proofs.Heap.Making
import ScriptMachine.Proofs.Heap.Marking
import ScriptMachine.Proofs.Heap.NativeArguments
import ScriptMachine.Proofs.Heap.Reaching
import ScriptMachine.Proofs.Heap.Registration
import ScriptMachine.Proofs.Heap.Release
import ScriptMachine.Proofs.Heap.Routing
import ScriptMachine.Proofs.Heap.Shedding
import ScriptMachine.Proofs.Heap.Storing
import ScriptMachine.Proofs.Heap.Tables
import ScriptMachine.Proofs.Heap.Threading
import ScriptMachine.Proofs.Heap.TypeMasks
import ScriptMachine.Proofs.Heap.Upkeep
import ScriptMachine.Proofs.Integers
import ScriptMachine.Proofs.Json.Floats
import ScriptMachine.Proofs.Json.Numbers
import ScriptMachine.Proofs.Json.Scaling
import ScriptMachine.Proofs.Json.Strings
import ScriptMachine.Proofs.Json.Trees
import ScriptMachine.Proofs.Machine.Accord
import ScriptMachine.Proofs.Machine.Activations
import ScriptMachine.Proofs.Machine.Arguments
import ScriptMachine.Proofs.Machine.Authorship
import ScriptMachine.Proofs.Machine.Below
import ScriptMachine.Proofs.Machine.Binding
import ScriptMachine.Proofs.Machine.Callees
import ScriptMachine.Proofs.Machine.Calls
import ScriptMachine.Proofs.Machine.Captures
import ScriptMachine.Proofs.Machine.Cells
import ScriptMachine.Proofs.Machine.Concert
import ScriptMachine.Proofs.Machine.Conduct
import ScriptMachine.Proofs.Machine.Construction
import ScriptMachine.Proofs.Machine.Creation
import ScriptMachine.Proofs.Machine.Defaults
import ScriptMachine.Proofs.Machine.Effects
import ScriptMachine.Proofs.Machine.Entering
import ScriptMachine.Proofs.Machine.Errands
import ScriptMachine.Proofs.Machine.Hosting
import ScriptMachine.Proofs.Machine.Invisibility
import ScriptMachine.Proofs.Machine.Isolation
import ScriptMachine.Proofs.Machine.Iteration
import ScriptMachine.Proofs.Machine.Keeping
import ScriptMachine.Proofs.Machine.Leaving
import ScriptMachine.Proofs.Machine.Likeness
import ScriptMachine.Proofs.Machine.Members
import ScriptMachine.Proofs.Machine.Moments
import ScriptMachine.Proofs.Machine.Natives
import ScriptMachine.Proofs.Machine.Origins
import ScriptMachine.Proofs.Machine.Overreach
import ScriptMachine.Proofs.Machine.Presence
import ScriptMachine.Proofs.Machine.Promotion
import ScriptMachine.Proofs.Machine.Quietness
import ScriptMachine.Proofs.Machine.Reachable
import ScriptMachine.Proofs.Machine.Refusals
import ScriptMachine.Proofs.Machine.Regimes
import ScriptMachine.Proofs.Machine.Replacing
import ScriptMachine.Proofs.Machine.Sharing
import ScriptMachine.Proofs.Machine.Slots
import ScriptMachine.Proofs.Machine.Stack
import ScriptMachine.Proofs.Machine.Stepping
import ScriptMachine.Proofs.Machine.Succession
import ScriptMachine.Proofs.Machine.Tandem
import ScriptMachine.Proofs.Machine.Tidiness
import ScriptMachine.Proofs.Machine.Timeless
import ScriptMachine.Proofs.Machine.Traces
import ScriptMachine.Proofs.Machine.Unison
import ScriptMachine.Proofs.Machine.Variables
import ScriptMachine.Proofs.Machine.Walking
import ScriptMachine.Proofs.Operators
import ScriptMachine.Proofs.Search
import ScriptMachine.Quoting.Addresses
import ScriptMachine.Quoting.Invisible
import ScriptMachine.Quoting.Quoted
import ScriptMachine.Search
import ScriptMachine.TypeTag
import ScriptMachine.Value
