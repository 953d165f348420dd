import Libxseg.XqRuns
import Libxseg.XbinheapRuns
import Libxseg.XhashRuns
import Libxseg.XheapConservation
import Libxseg.XsegReqData
import Libxseg.XsegReturns
import Libxseg.XcacheReturned
import Libxseg.XpoolRuns
import Libxseg.XworkqRuns
import Libxseg.XwaitqRuns
import Libxseg.Xlock
import Libxseg.XsegPosixfd
import Libxseg.XsegSpec
import Libxseg.XsegDriver
import Libxseg.XsegBuffer
import Libxseg.XsegPortsRuns
import Libxseg.XsegLocksReleased
import Libxseg.XcacheClose
import Libxseg.XcacheVictims
import Libxseg.XheapReuse
import Libxseg.XheapAnySize
import Libxseg.XsegLayout
import Libxseg.XsegUndo
import Libxseg.XsegRouting
import Libxseg.XsegSubmitFails
import Libxseg.XsegQueueSize
import Libxseg.XsegBindFails
import Libxseg.XsegAccountsRuns
import Libxseg.XobjRuns
import Libxseg.XobjExclusive
import Libxseg.XqMove
import Libxseg.XqPrefilled
import Libxseg.XqLocks
import Libxseg.XbinheapDead
import Libxseg.XlockRecovery
import Libxseg.XsegPosixfdNames
import Libxseg.XsegChunk
import Libxseg.XsegSegment
import Libxseg.XsegSignals
import Libxseg.XsegReqLimits
import Libxseg.XcacheFailedInit
import Libxseg.XcacheShadowed
import Libxseg.XcacheNames
import Libxseg.XcacheWrap
import Libxseg.XcacheLruRuns
import Libxseg.XheapInit
import Libxseg.XheapRounding
import Libxseg.XqCapacity
import Libxseg.XcacheSize
import Libxseg.XsegJoin
import Libxseg.XsegIsolation
import Libxseg.XheapMappings
import Libxseg.XsegDangling
import Libxseg.XsegRecovery
import Libxseg.XsegClientRuns
