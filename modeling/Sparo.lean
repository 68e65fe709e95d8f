import Sparo.Base.Containers.Proofs.CircularDequeRuns
import Sparo.Base.Containers.Proofs.FlatTreeEquivalence
import Sparo.Base.Numerics.Proofs.CheckedMathSound
import Sparo.Base.Numerics.Proofs.SafeConversionsCasts
import Sparo.Base.Numerics.Proofs.CheckedNumericIdeal
import Sparo.Base.Task.Proofs.DequeCapacity
import Sparo.Base.Task.Proofs.TaskLoopFlow
import Sparo.Base.Task.Proofs.TaskLoopWait
import Sparo.Base.Proofs.BoundedMpmcQueueFull
import Sparo.Base.Proofs.BoundedMpmcQueueReturns
import Sparo.Base.Proofs.CommandLineAgreement
import Sparo.Base.Proofs.CommandLineAppend
import Sparo.Base.Proofs.CommandLineCopy
import Sparo.Base.Proofs.IntrusiveHeapHandles
import Sparo.Base.Proofs.ThreadPoolAccounting
import Sparo.Base.Proofs.ThreadPoolCallback
import Sparo.Base.Proofs.ThreadPoolCallbackSeen
import Sparo.Base.Proofs.ThreadPoolSettles
import Sparo.Base.Strings.Proofs.StringPieceAgreement
import Sparo.Base.Threading.Proofs.CurrentId
import Sparo.Base.Threading.Proofs.SleepTime
import Sparo.Demo.Proofs.CommandLineRelaunch
import Sparo.Demo.Proofs.IpcDemoRuns
import Sparo.Demo.Proofs.ItoaNumeral
import Sparo.Demo.Proofs.ReadAccount
import Sparo.Demo.Proofs.SharedBufferExact
import Sparo.Demo.Proofs.SharedBufferLinear
import Sparo.Demo.Proofs.EpollServes
import Sparo.ThirdParty.Proofs.LazyInstanceOnce
import Sparo.ThirdParty.Proofs.ThreadpoolDrain
import Sparo.Test.Proofs.ServerFraming
import Sparo.Test.Proofs.HeapRuns
import Sparo.Test.Proofs.BubbleSortOnce
import Sparo.Test.Proofs.StairDpLeast
import Sparo.Main.Proofs.ClimbingStairsAgree
import Sparo.Test.Proofs.AlPermutations
import Sparo.Main.AlignUp
