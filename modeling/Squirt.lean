import Squirt.TableRefinement
import Squirt.TablePresence
import Squirt.GuardedRuns
import Squirt.RootFrames
import Squirt.FailureBalance
import Squirt.CallConvention
import Squirt.WrittenClosures
import Squirt.JitControlFlow
import Squirt.TrapTyping
import Squirt.StringInterning
import Squirt.RefCounts
import Squirt.ClassInstances
import Squirt.OperationBalance
import Squirt.JitArithmetic
import Squirt.DelegateErrors
import Squirt.CodeEmission
import Squirt.StatementCode
import Squirt.TrapPaths
import Squirt.EmissionSteps
import Squirt.StatementEffects
import Squirt.TrapStatements
import Squirt.TrapForms
import Squirt.TrapExits
import Squirt.TrapBalance
import Squirt.RegisterLimit
import Squirt.LexicalResolution
import Squirt.IntegerOperators
import Squirt.ScalarOrder
import Squirt.EqualityOperator
import Squirt.ArithmeticPaths
import Squirt.BlobFile
import Squirt.LineLookup
import Squirt.StringIndexing
import Squirt.Slices
import Squirt.ArraySort
import Squirt.SyntaxTrees
import Squirt.TypeSoundness
import Squirt.DefinedTypes
import Squirt.TypeNames
import Squirt.CollectedTypes
import Squirt.StaticCompilation
import Squirt.DebugHook
import Squirt.HookFrames
import Squirt.HookCounts
import Squirt.HookSteps
import Squirt.HookBalance
import Squirt.Candidates
import Squirt.DebugLocals
import Squirt.LexerPositions
import Squirt.StringLiterals
import Squirt.NumericLiterals
import Squirt.RexMatcher
import Squirt.RexTrees
import Squirt.RexCompilation
import Squirt.RexEscapes
import Squirt.RexTermination
import Squirt.RegularPatterns
import Squirt.RexPatterns
import Squirt.RexSearches
import Squirt.RexCounts
import Squirt.RexQuantifiers
import Squirt.Typemasks
import Squirt.FormatBuffers
import Squirt.BlobResize
import Squirt.BinaryNumbers
import Squirt.BlobTransfers
import Squirt.ArrayPrimitives
import Squirt.LiteralPool
import Squirt.LiteralOperands
import Squirt.LoadedConstants
import Squirt.ConstantRuns
import Squirt.DoublyLinked
import Squirt.GraphMarking
import Squirt.GarbageCollector
import Squirt.MarkPhase
import Squirt.Resurrection
import Squirt.Simulations
import Squirt.OpenOuters
import Squirt.SharedVariables
import Squirt.CodeBlocks
import Squirt.RegisterMachine
import Squirt.ExpressionCode
import Squirt.ExpressionMeaning
import Squirt.PeepholeMerges
import Squirt.EmittedMeaning
import Squirt.OperandTargets
import Squirt.CompiledOperators
import Squirt.CompiledExpressions
import Squirt.CompiledStores
import Squirt.CompiledCalls
import Squirt.CompiledBranches
import Squirt.CompilerCorrectness
