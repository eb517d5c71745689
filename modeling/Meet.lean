import Meet.PPMediaBufferGroup.Fifo
import Meet.PPMediaBufferGroup.StaleRelease
import Meet.PPMediaBufferGroup.Wakeup
import Meet.PPMediaBufferGroup.EmptyRing
import Meet.PPExtractor.Malformed
import Meet.PPExtractor.AnyBytes
import Meet.PPExtractor.StreamDone
import Meet.PPExtractor.SeekWait
import Meet.PPExtractor.Delivery
import Meet.PPExtractor.Teardown
import Meet.PPExtractor.Buffering
import Meet.PPExtractor.Tracks
import Meet.PPExtractor.AudioConfig
import Meet.NuPPMediaExtractor.TrackMerge
import Meet.NuPPMediaExtractor.SeekFresh
import Meet.NuPPMediaExtractor.Starvation
import Meet.NuPPMediaExtractor.Unselect
import Meet.NuPPMediaExtractor.CodecData
import Meet.PPDataSource.OpenStream
import Meet.NuMediaPlayer.Chains
import Meet.NuMediaPlayer.SeekKept
import Meet.NuMediaPlayer.Notifications
import Meet.NuMediaPlayer.Initialised
import Meet.NuMediaPlayer.BufferingEnd
import Meet.NuMediaPlayer.InputEnd
import Meet.AwesomePlayer.SeekCarried
import Meet.AwesomePlayer.Reset
import Meet.AwesomePlayer.BufferingInfo
import Meet.AwesomePlayer.SeekCoalesce
import Meet.AwesomePlayer.AudioResumed
import Meet.AudioPlayer.FillBuffer
import Meet.LogUtils.Rotation
import Meet.MeetSDK.Thumbnails
import Meet.Scanner.Scan
import Meet.MeetVideoView.OnMeasure
import Meet.MediaScannerService.Result
import Meet.Common.Lines
import Meet.Common.LinkedMap
import Meet.DiskLruCache.Operations
import Meet.DiskLruCache.Recovery
import Meet.DiskLruCache.TornLine
import Meet.DiskLruCache.Eviction
import Meet.DiskLruCache.Snapshots
import Meet.DiskLruCache.Represents
import Meet.TimedEventQueue.Stop
import Meet.AwesomePlayer.EventQueue
import Meet.Common.Ascending
import Meet.Common.RunLength
import Meet.SampleTable.Basic
import Meet.SampleTable.Iterator
import Meet.SampleTable.Queries
import Meet.SampleTable.Sizes
