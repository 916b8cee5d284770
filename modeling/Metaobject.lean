import Metaobject.Archive
import Metaobject.Archive.Directory
import Metaobject.Archive.Memory
import Metaobject.Cache
import Metaobject.Cache.Trace
import Metaobject.Class
import Metaobject.CommandLine
import Metaobject.CommandLine.Arguments
import Metaobject.CommandLine.Journal
import Metaobject.Decimal.Notation
import Metaobject.Decimal.Reading
import Metaobject.Decimal.Shortest
import Metaobject.DefinitionUnit
import Metaobject.Double
import Metaobject.Event
import Metaobject.Fault
import Metaobject.Files
import Metaobject.GenericFunction
import Metaobject.Graph
import Metaobject.Image
import Metaobject.Image.Methods
import Metaobject.Image.Slots
import Metaobject.Instance
import Metaobject.Json
import Metaobject.Json.Cursor
import Metaobject.Json.Reading
import Metaobject.Json.Record
import Metaobject.Json.Scalar
import Metaobject.KernelClass
import Metaobject.Layout
import Metaobject.Limits
import Metaobject.Literal
import Metaobject.LoadFault
import Metaobject.Loader
import Metaobject.Loader.Events
import Metaobject.Logging
import Metaobject.Main
import Metaobject.MethodAttribute
import Metaobject.Path
import Metaobject.Precedence
import Metaobject.Project
import Metaobject.Proofs.Admission
import Metaobject.Proofs.Agreement
import Metaobject.Proofs.Cascade
import Metaobject.Proofs.Cells
import Metaobject.Proofs.Declaration
import Metaobject.Proofs.DefinitionFrame
import Metaobject.Proofs.DefinitionOrder
import Metaobject.Proofs.Hierarchy
import Metaobject.Proofs.Installation
import Metaobject.Proofs.Linearization
import Metaobject.Proofs.NamedClasses
import Metaobject.Proofs.Outline
import Metaobject.Proofs.FreshRegistry
import Metaobject.Proofs.Reachability
import Metaobject.Proofs.Rebuilding
import Metaobject.Proofs.SlotOrder
import Metaobject.Proofs.StoredShapes
import Metaobject.Proofs.SubclassTest
import Metaobject.Proofs.Walk
import Metaobject.Registry
import Metaobject.Registry.Bootstrap
import Metaobject.Registry.Definition
import Metaobject.Registry.Events
import Metaobject.Registry.Finalization
import Metaobject.Registry.Naming
import Metaobject.Settings
import Metaobject.Symbol
import Metaobject.Table
import Metaobject.Text.Hidden
import Metaobject.Text.Quoted
import Metaobject.Text.Utf8
import Metaobject.Typing
import Metaobject.Value
import Metaobject.Proofs.FailedDefinition
import Metaobject.Proofs.Session
import Metaobject.Proofs.NamedSlots
import Metaobject.Proofs.SlotPersistence
import Metaobject.Proofs.ActionRuns
import Metaobject.Proofs.Moves
import Metaobject.Proofs.KernelIntegrity
import Metaobject.Proofs.InstallationSteps
import Metaobject.Proofs.NameIdentity
import Metaobject.Proofs.Restatement
import Metaobject.Proofs.MethodTables
import Metaobject.Proofs.MethodInstallation
import Metaobject.Proofs.LoadedImages
import Metaobject.Proofs.UnitDeclarations
import Metaobject.Proofs.UnitInstallation
import Metaobject.Proofs.Reloading
import Metaobject.Proofs.TypeCoherence
import Metaobject.Proofs.MostGeneralType
import Metaobject.Proofs.TypeNames
import Metaobject.Proofs.Prevailing
import Metaobject.Proofs.LiteralIdentity
import Metaobject.Proofs.UnitContents
import Metaobject.Proofs.BuiltInTypes
import Metaobject.Proofs.Tables
import Metaobject.Proofs.CacheHistory
import Metaobject.Proofs.CacheBalance
import Metaobject.Proofs.Signatures
import Metaobject.Proofs.MethodSignatures
import Metaobject.Proofs.MethodLists
import Metaobject.Proofs.FunctionCalls
import Metaobject.Proofs.MethodRuns
import Metaobject.Proofs.MethodRetention
import Metaobject.Proofs.AddedNames
import Metaobject.Proofs.CacheRequests
import Metaobject.Proofs.CacheSeparation
import Metaobject.Proofs.NeutralLoading
import Metaobject.Proofs.DecodeFaults
import Metaobject.Proofs.MergedOrders
import Metaobject.Proofs.Migration
import Metaobject.Proofs.LayoutVersions
import Metaobject.Proofs.Obsolescence
import Metaobject.Proofs.RefusedDefinitions
import Metaobject.Proofs.MadeInstances
import Metaobject.Proofs.MethodViews
import Metaobject.Proofs.InstalledMethods
import Metaobject.Proofs.LoadReports
import Metaobject.Proofs.ArchiveNames
import Metaobject.Proofs.LiteralValues
import Metaobject.Proofs.ValueEquality
import Metaobject.Proofs.BuiltLayouts
import Metaobject.Proofs.SlotBounds
import Metaobject.Proofs.FinalizationFaults
