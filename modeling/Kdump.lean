import Kdump.Lib.Loop
import Kdump.Lib.Wp
import Kdump.Lib.SparseFile
import Kdump.Lib.Shell
import Kdump.Lib.ShellRules
import Kdump.Lib.Scan
import Kdump.Lib.InPlace
import Kdump.Lib.Glob
import Kdump.Lib.IndexedArray
import Kdump.Lib.Assoc
import Kdump.Lib.Regex
import Kdump.Config.QuotedString
import Kdump.Config.ConfigParser
import Kdump.Config.KernelPasses
import Kdump.Config.RoundTrip
import Kdump.Config.KernelParameters
import Kdump.Config.ShellFormat
import Kdump.Config.ShellConfigParser
import Kdump.Config.ShellScript
import Kdump.Config.ShellFidelity
import Kdump.Path.FilePath
import Kdump.Path.LinkCount
import Kdump.Path.Idempotence
import Kdump.Path.Walker
import Kdump.Path.Confinement
import Kdump.Path.DefaultRoot
import Kdump.Path.Tree
import Kdump.Path.Chroot
import Kdump.Path.Slashes
import Kdump.Url.PercentEncoding
import Kdump.Url.Decoding
import Kdump.Url.URLParser
import Kdump.Url.Spelling
import Kdump.Url.Appending
import Kdump.Config.Needs
import Kdump.Process.WaitStatus
import Kdump.Process.SubProcess
import Kdump.Process.ChildSetup
import Kdump.Process.MultiplexIO
import Kdump.Process.ProcessFilter
import Kdump.Process.Waiting
import Kdump.Process.FilterLoop
import Kdump.Transfer.DataProvider
import Kdump.Transfer.Stdio
import Kdump.Transfer.FileTransfer
import Kdump.Transfer.SavedFile
import Kdump.Transfer.Descriptor
import Kdump.Transfer.SSHTransfer
import Kdump.Transfer.FTPTransfer
import Kdump.Transfer.LifeCycle
import Kdump.Sftp.SFTPPacket
import Kdump.Sftp.PacketFields
import Kdump.Sftp.SFTPTransfer
import Kdump.Sftp.Exchange
import Kdump.Sftp.Framing
import Kdump.Sftp.Run
import Kdump.Sftp.RemoteFile
import Kdump.Sftp.Discipline
import Kdump.Sftp.Protocol
import Kdump.Sftp.ServerTree
import Kdump.Transfer.ExitStatus
import Kdump.Transfer.MutualWait
import Kdump.Mount.MountTransfer
import Kdump.Mount.Target
import Kdump.Mount.Leak
import Kdump.Calibrate.Bounds
import Kdump.Files.Retention
import Kdump.Files.MakeDirectory
import Kdump.Bootloader.Convergence
import Kdump.Dump.CrashTime
import Kdump.Kernel.Markers
import Kdump.Kernel.Chunks
import Kdump.Kernel.GzipMagic
import Kdump.Kernel.ConfigLength
import Kdump.Kernel.DotConfig
import Kdump.Kernel.LineReaders
import Kdump.Mount.MountTable
import Kdump.Dump.Truthful
import Kdump.Dump.Makedumpfile
import Kdump.Route.Routable
import Kdump.Route.Socket
import Kdump.Route.RtAttrs
import Kdump.Process.InputPump
import Kdump.Process.OutputPump
import Kdump.Calibrate.LowHigh
import Kdump.Calibrate.SystemCPU
import Kdump.Calibrate.Iomem
import Kdump.Dump.XenFlag
import Kdump.Dump.NoteBounds
import Kdump.Dump.FindElfNote
import Kdump.Dump.ElfNotes
import Kdump.Dump.Parallel
import Kdump.Transfer.ShellCommand
import Kdump.Multipath.MultipathConf
import Kdump.Multipath.Filter
import Kdump.Generator.SlurpFd
import Kdump.Generator.UnescapeFstab
import Kdump.Generator.PathEscape
import Kdump.Generator.UnitName
import Kdump.Setup.UpdateMount
import Kdump.Setup.Mountpoints
import Kdump.Kernel.FindBytes
import Kdump.Mount.FilesystemTypeMap
import Kdump.Calibrate.CryptInfo
import Kdump.Load.RemoveOption
import Kdump.Load.Parameters
import Kdump.Load.Commandline
import Kdump.Kernel.KconfigIndex
import Kdump.Url.LookAhead
import Kdump.Path.Joining
import Kdump.Lib.Schedule
import Kdump.Lib.Fields
import Kdump.Load.LoadOnce
import Kdump.Setup.Relocation
import Kdump.Setup.ModifyConfig
import Kdump.Build.ProcessCond
import Kdump.Kernel.KernelPath
import Kdump.Lib.Attempts
import Kdump.Kernel.FindKernel
import Kdump.Kernel.KernelType
import Kdump.Kernel.Mkdumprd
import Kdump.Lib.Ranked
import Kdump.Lib.DefinedFirst
import Kdump.Setup.NetConfig
import Kdump.Setup.NetNames
import Kdump.Setup.GetTargets
import Kdump.Setup.InitrdTargets
import Kdump.Setup.CheckNet
