import Scrapcode.Runs
import Scrapcode.Linked
import Scrapcode.Programs
import Scrapcode.AsyncTypes
import Scrapcode.AsyncQueue
import Scrapcode.AsyncService
import Scrapcode.AsyncPairing
import Scrapcode.AsyncLoop
import Scrapcode.FileSystem
import Scrapcode.OverwriteSteps
import Scrapcode.OverwriteShared
import Scrapcode.OverwriteCrash
import Scrapcode.ByteText
import Scrapcode.SpoolHandshake
import Scrapcode.Endpoint
import Scrapcode.SpoolJob
import Scrapcode.GuardChain
import Scrapcode.Machines
import Scrapcode.TryBlocks
import Scrapcode.TryMacros
import Scrapcode.TryCorrect
import Scrapcode.BoundedMaps
import Scrapcode.LwlockScript
import Scrapcode.LwlockProtocol
import Scrapcode.LwlockViews
import Scrapcode.LwlockRecords
import Scrapcode.LwlockAccounting
import Scrapcode.LwlockEnd
import Scrapcode.MixedRadix
import Scrapcode.Promtorture
import Scrapcode.PromtortureSeries
import Scrapcode.Rht03Sketch
import Scrapcode.Rht03Capture
import Scrapcode.CredStore
import Scrapcode.CredSteps
import Scrapcode.CredProviders
import Scrapcode.CredRace
import Scrapcode.CredPrivate
import Scrapcode.PgFork
import Scrapcode.PgMp
import Scrapcode.Climb
import Scrapcode.Nspid
import Scrapcode.NspidOptions
import Scrapcode.ForkCow
import Scrapcode.FsyncClear
import Scrapcode.PgForkReport
import Scrapcode.AsyncKill
import Scrapcode.AsyncDrain
import Scrapcode.AsyncNotify
import Scrapcode.Rht03Decode
import Scrapcode.Rht03Print
import Scrapcode.CredLookup
import Scrapcode.SpoolFraming
import Scrapcode.SpoolAccepts
import Scrapcode.ShellWords
import Scrapcode.SpoolCommand
import Scrapcode.SpoolVerdict
import Scrapcode.LwlockBlockers
import Scrapcode.PromtortureTargets
import Scrapcode.PromtortureSafety
import Scrapcode.HexNumerals
import Scrapcode.Hex2dec
import Scrapcode.Draws
import Scrapcode.RandomBytea
import Scrapcode.RandomUniform
import Scrapcode.Brackets
import Scrapcode.StringTransform
import Scrapcode.ArrayAdd
import Scrapcode.Lookups
import Scrapcode.NspidVanish
import Scrapcode.NspidStatus
import Scrapcode.ForkCowShm
import Scrapcode.ShmPs
import Scrapcode.Weather
import Scrapcode.WeatherExtremes
import Scrapcode.RingBuffer
import Scrapcode.SoilMoisture
import Scrapcode.GenericTypename
import Scrapcode.TextPieces
import Scrapcode.Markup
import Scrapcode.AdSearch
import Scrapcode.StderrFilter
import Scrapcode.ImageLoadStore
import Scrapcode.Interrupts
import Scrapcode.FileBuffer
import Scrapcode.ScribdMultipart
import Scrapcode.ScribdSend
import Scrapcode.ScribdRetry
import Scrapcode.Delimited
import Scrapcode.ScribdRead
import Scrapcode.Progress
import Scrapcode.SpoolProgress
import Scrapcode.Barriers
import Scrapcode.ConcurrentTx
import Scrapcode.WeightedSums
import Scrapcode.Rht03Frame
import Scrapcode.ShiftRegisters
import Scrapcode.Circ05
import Scrapcode.Overcommit
import Scrapcode.CredLife
import Scrapcode.AsyncSends
import Scrapcode.GuardMonitor
import Scrapcode.NspidParents
import Scrapcode.LwlockBlame
import Scrapcode.PgMpWaits
