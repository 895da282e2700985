import BreadLang.Codegen.Activation
import BreadLang.Codegen.AnalyzeStmt
import BreadLang.Codegen.ArrayElements
import BreadLang.Codegen.AssignTarget
import BreadLang.Codegen.BlockRuns
import BreadLang.Codegen.Blocks
import BreadLang.Codegen.CallFrames
import BreadLang.Codegen.CallOrder
import BreadLang.Codegen.CompiledReturns
import BreadLang.Codegen.Context
import BreadLang.Codegen.DefaultParams
import BreadLang.Codegen.Eval
import BreadLang.Codegen.Expr
import BreadLang.Codegen.FunctionInference
import BreadLang.Codegen.Hierarchy
import BreadLang.Codegen.IndexTyping
import BreadLang.Codegen.Infer
import BreadLang.Codegen.InferSimple
import BreadLang.Codegen.InferenceAgreement
import BreadLang.Codegen.IntegerLiterals
import BreadLang.Codegen.Ir
import BreadLang.Codegen.LexicalScope
import BreadLang.Codegen.MemberLists
import BreadLang.Codegen.MethodDispatch
import BreadLang.Codegen.OperatorTyping
import BreadLang.Codegen.ProgramPoints
import BreadLang.Codegen.ReturnPaths
import BreadLang.Codegen.RunPaths
import BreadLang.Codegen.ScopeAgreement
import BreadLang.Codegen.ScopeFacts
import BreadLang.Codegen.ScopeStatements
import BreadLang.Codegen.ScopedBlocks
import BreadLang.Codegen.ScopedLowering
import BreadLang.Codegen.Semantic
import BreadLang.Codegen.SemanticFacts
import BreadLang.Codegen.Steps
import BreadLang.Codegen.Stmt
import BreadLang.Codegen.StringConstants
import BreadLang.Codegen.Terminators
import BreadLang.Codegen.UnboxedMeaning
import BreadLang.Codegen.UnboxedOperators
import BreadLang.Codegen.Unboxing
import BreadLang.Codegen.ValueFlows
import BreadLang.Codegen.VarPlaces
import BreadLang.Compiler.Advancing
import BreadLang.Compiler.Ast
import BreadLang.Compiler.BracketLiterals
import BreadLang.Compiler.Complete
import BreadLang.Compiler.CompleteProgram
import BreadLang.Compiler.ControlFlow
import BreadLang.Compiler.EscapeAnalysis
import BreadLang.Compiler.ExprOps
import BreadLang.Compiler.ExprParser
import BreadLang.Compiler.ExprReading
import BreadLang.Compiler.LeftSides
import BreadLang.Compiler.Lexical
import BreadLang.Compiler.Occurrences
import BreadLang.Compiler.Optimization
import BreadLang.Compiler.PrintedTypes
import BreadLang.Compiler.Progress
import BreadLang.Compiler.Reading
import BreadLang.Compiler.RecursiveCalls
import BreadLang.Compiler.Rendering
import BreadLang.Compiler.RoundTrip
import BreadLang.Compiler.SourceText
import BreadLang.Compiler.StabilityPaths
import BreadLang.Compiler.StmtKinds
import BreadLang.Compiler.StmtParser
import BreadLang.Compiler.StmtReading
import BreadLang.Compiler.StringBuffer
import BreadLang.Compiler.StringLiterals
import BreadLang.Compiler.Termination
import BreadLang.Compiler.TypeAnnotations
import BreadLang.Compiler.TypeStability
import BreadLang.Compiler.TypeTokens
import BreadLang.Core.Array
import BreadLang.Core.Compatible
import BreadLang.Core.Dict
import BreadLang.Core.DictLinear
import BreadLang.Core.DictLiteral
import BreadLang.Core.DictMap
import BreadLang.Core.DictPacked
import BreadLang.Core.DictRun
import BreadLang.Core.DictTable
import BreadLang.Core.Module
import BreadLang.Core.ModuleAtomicity
import BreadLang.Core.ModuleImports
import BreadLang.Core.ModuleInclusion
import BreadLang.Core.ModuleLinking
import BreadLang.Core.ModulePath
import BreadLang.Core.ModuleProgram
import BreadLang.Core.ModuleRun
import BreadLang.Core.ModuleTermination
import BreadLang.Core.TypeCopies
import BreadLang.Core.TypeDescriptor
import BreadLang.Core.TypeText
import BreadLang.Core.Value
import BreadLang.Library.Acyclic
import BreadLang.Library.Allocation
import BreadLang.Library.Ancestry
import BreadLang.Library.BasicBlocks
import BreadLang.Library.Bitmap
import BreadLang.Library.BlockFacts
import BreadLang.Library.Brackets
import BreadLang.Library.Chain
import BreadLang.Library.Decimal
import BreadLang.Library.Gathering
import BreadLang.Library.Hoare
import BreadLang.Library.Intern
import BreadLang.Library.LinkedList
import BreadLang.Library.Loop
import BreadLang.Library.OpenAddressing
import BreadLang.Library.Outcome
import BreadLang.Library.Probe
import BreadLang.Library.Refinement
import BreadLang.Library.Replacement
import BreadLang.Library.Run
import BreadLang.Library.ScopedMap
import BreadLang.Library.Shifting
import BreadLang.Library.Stateful
import BreadLang.Library.Trace
import BreadLang.Library.TreeSearch
import BreadLang.Library.Walk
import BreadLang.Runtime.ArrayList
import BreadLang.Runtime.AssignedObjects
import BreadLang.Runtime.Class
import BreadLang.Runtime.ClassObject
import BreadLang.Runtime.ClassRegistry
import BreadLang.Runtime.Collector
import BreadLang.Runtime.CompiledCalls
import BreadLang.Runtime.Conservation
import BreadLang.Runtime.Containers
import BreadLang.Runtime.CycleReclaim
import BreadLang.Runtime.Declarations
import BreadLang.Runtime.DictConservation
import BreadLang.Runtime.DictKeys
import BreadLang.Runtime.Equality
import BreadLang.Runtime.ErrorContext
import BreadLang.Runtime.ErrorMessage
import BreadLang.Runtime.ForInLoop
import BreadLang.Runtime.Homogeneous
import BreadLang.Runtime.Indexing
import BreadLang.Runtime.Inheritance
import BreadLang.Runtime.IntegerOps
import BreadLang.Runtime.Marking
import BreadLang.Runtime.Members
import BreadLang.Runtime.Memory
import BreadLang.Runtime.MemoryFacts
import BreadLang.Runtime.MemoryStats
import BreadLang.Runtime.NumberText
import BreadLang.Runtime.ObjectRun
import BreadLang.Runtime.ObjectVars
import BreadLang.Runtime.Objects
import BreadLang.Runtime.Operators
import BreadLang.Runtime.RangeCreate
import BreadLang.Runtime.ReferencesConserved
import BreadLang.Runtime.Storage
import BreadLang.Runtime.StorageRun
import BreadLang.Runtime.Stores
import BreadLang.Runtime.StringIntern
import BreadLang.Runtime.SuperCalls
import BreadLang.Runtime.Teardown
import BreadLang.Runtime.ValueOps
import BreadLang.Runtime.VarFacts
import BreadLang.Runtime.VarStore
import BreadLang.Runtime.Vars
