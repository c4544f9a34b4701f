import Ysyx.Pipeline.TrapPayload
import Ysyx.Pipeline.CsrHazard
import Ysyx.Pipeline.Precise
import Ysyx.Pipeline.Speculation
import Ysyx.Nemu.Agreement
import Ysyx.Nemu.Difftest
import Ysyx.Am.Cte
import Ysyx.Refine.Commits
import Ysyx.Memory.Lanes
import Ysyx.Memory.Crossbar
import Ysyx.Memory.Stores
import Ysyx.Memory.Exclusion
import Ysyx.Pipeline.FetchPairing
import Ysyx.Tools.ItraceBin
import Ysyx.Tools.CachePrediction
import Ysyx.Tools.Inclusion
import Ysyx.Sdb.Success
import Ysyx.Sdb.Unary
import Ysyx.Sdb.Spelling
import Ysyx.Cache.Transparency
import Ysyx.Pipeline.TwoRuns
import Ysyx.Pipeline.SkipAccess
import Ysyx.Pipeline.Faults
import Ysyx.Pipeline.Halt
import Ysyx.Predict.ReturnStack
import Ysyx.Predict.BranchTarget
import Ysyx.Memory.Bursts
import Ysyx.Cache.Backpressure
import Ysyx.Memory.HostPath
import Ysyx.Memory.Coherence
import Ysyx.Refine.Illegal
import Ysyx.Am.Timer
import Ysyx.Klib.Malloc
import Ysyx.Klib.String
import Ysyx.Klib.Atoi
import Ysyx.Sdb.Breakpoint
import Ysyx.Nemu.MExtension
import Ysyx.Nemu.Ftrace
import Ysyx.Sdb.Parentheses
import Ysyx.Nemu.Itrace
import Ysyx.Nemu.CallTrace
import Ysyx.Nemu.Regions
import Ysyx.Am.Input
import Ysyx.Cache.Uniqueness
import Ysyx.Memory.WrongPath
import Ysyx.Pipeline.Operands
import Ysyx.Rvmini.Decode
import Ysyx.Libgcc.Nemu
