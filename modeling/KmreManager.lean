import KmreManager.Audio.Alsa
import KmreManager.Audio.AudioServer
import KmreManager.Audio.PcmTypestate
import KmreManager.Audio.PlaybackShutdown
import KmreManager.Audio.PlaybackShutdown.Turns
import KmreManager.Audio.PlaybackWorker
import KmreManager.Audio.PlaybackWorker.Chunks
import KmreManager.Audio.PlaybackWorker.DeviceErrors
import KmreManager.Audio.PlaybackWorker.Gapless
import KmreManager.Audio.RecordingBuffers
import KmreManager.Audio.RecordingWorker
import KmreManager.Audio.RecordingWorker.GivingUp
import KmreManager.Audio.RecordingWorker.Initialisation
import KmreManager.Audio.RecordingWorker.ResamplerRoom
import KmreManager.Audio.RecordingWorker.Step
import KmreManager.Audio.ResamplerState
import KmreManager.Audio.SocketStream
import KmreManager.Audio.StreamOwnership
import KmreManager.BackendWorker
import KmreManager.BackendWorker.AppNames
import KmreManager.BackendWorker.DesktopEntry
import KmreManager.BackendWorker.IconCommands
import KmreManager.BackendWorker.Install
import KmreManager.BackendWorker.Launcher
import KmreManager.BackendWorker.Paths
import KmreManager.BackendWorker.Uninstall
import KmreManager.CameraService
import KmreManager.CameraService.Descriptors
import KmreManager.CameraService.Handover
import KmreManager.CameraService.Selection
import KmreManager.ContainerName
import KmreManager.ControlManager
import KmreManager.ControlManager.Accesses
import KmreManager.ControlManager.Classification
import KmreManager.ControlManager.LinkMirror
import KmreManager.ControlManager.MediaLists
import KmreManager.ControlManager.Notification
import KmreManager.ControlManager.OverlappingDumps
import KmreManager.ControlManager.PathStore
import KmreManager.ControlManager.Reads
import KmreManager.ControlManager.Step
import KmreManager.DataSocket
import KmreManager.DataSocket.FrameAssembly
import KmreManager.DataSocket.GpsSentence
import KmreManager.DataSocket.GpsdataGet
import KmreManager.DataSocket.SensorParsing
import KmreManager.DataSocket.SensordataGet
import KmreManager.DataSocket.StreamSafety
import KmreManager.DataSocket.Throttle
import KmreManager.DataSocket.WholeFrames
import KmreManager.DisplaySizeManager
import KmreManager.DisplayTypeManager
import KmreManager.FileInotifyService
import KmreManager.FileInotifyService.AddWatchSound
import KmreManager.FileInotifyService.AndroidPath
import KmreManager.FileInotifyService.Coverage
import KmreManager.FileInotifyService.Debounce
import KmreManager.FileInotifyService.Discovery
import KmreManager.FileInotifyService.Discovery.Agreement
import KmreManager.FileInotifyService.Discovery.SameScan
import KmreManager.FileInotifyService.EventAttribution
import KmreManager.FileInotifyService.Invariant
import KmreManager.FileInotifyService.NoLoss
import KmreManager.FileInotifyService.Notify
import KmreManager.FileInotifyService.NotifyQueue
import KmreManager.FileInotifyService.Registry
import KmreManager.FileInotifyService.StartUp
import KmreManager.FileInotifyService.StaticScan
import KmreManager.FileInotifyService.Undisturbed
import KmreManager.FileInotifyWatcher
import KmreManager.FileInotifyWatcher.EventFraming
import KmreManager.FileInotifyWatcher.Inverse
import KmreManager.GpuInfo
import KmreManager.GpuInfo.Leaks
import KmreManager.GpuInfo.NodeNumbers
import KmreManager.HostTree
import KmreManager.Lib.BlockWrites
import KmreManager.Lib.ByteStream
import KmreManager.Lib.DesktopEntry
import KmreManager.Lib.Directory
import KmreManager.Lib.FileLocks
import KmreManager.Lib.FileTree
import KmreManager.Lib.Framing
import KmreManager.Lib.HardLinks
import KmreManager.Lib.KeyedList
import KmreManager.Lib.Multimap
import KmreManager.Lib.MutableIterator
import KmreManager.Lib.Nmea
import KmreManager.Lib.Ownership
import KmreManager.Lib.PathWalk
import KmreManager.Lib.PosixShell
import KmreManager.Lib.Preorder
import KmreManager.Lib.RateConversion
import KmreManager.Lib.Runs
import KmreManager.Lib.TextLines
import KmreManager.Lib.Volume
import KmreManager.Lib.WriteBehind
import KmreManager.LockFile
import KmreManager.Pathname
import KmreManager.PowerManager
import KmreManager.QString
import KmreManager.QStringArg
import KmreManager.QStringUtf8
import KmreManager.ResolvConf
import KmreManager.UnixStream
import KmreManager.UnixStream.Listeners
