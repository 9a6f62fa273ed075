import Aesd.Server.HandlerRefinement
import Aesd.Server.OwnLine
import Aesd.Server.Sessions
import Aesd.Server.StoppedService
import Aesd.Server.OpenDescriptors
import Aesd.Driver.DebugPrints
import Aesd.Driver.Lifecycle
import Aesd.Server.PlainFile
import Aesd.Driver.Concurrency
import Aesd.Driver.WritePath
import Aesd.Driver.LockDiscipline
import Aesd.Driver.FailedOperations
import Aesd.Driver.ReadsAgainstWrites
import Aesd.Driver.WholeWrites
import Aesd.Server.ClientLines
import Aesd.Server.SeekSplits
import Aesd.Server.SeekRecognition
import Aesd.Server.ResponseProperties
import Aesd.Server.ThreadProperties
import Aesd.Driver.LimitedSizes
import Aesd.Driver.ReadToEnd
import Aesd.Driver.Leaks
import Aesd.Driver.Cleanup
import Aesd.Driver.ShortCopies
import Aesd.Driver.SeekRejection
import Aesd.Server.WholeContents
import Aesd.Server.BufferRanges
import Aesd.Driver.AccessRanges
import Aesd.Driver.StackContents
import Aesd.Driver.ExactPositions
import Aesd.Server.FailurePaths
import Aesd.Server.Startup
import Aesd.Server.ThreadReaping
