import VideoUploader.PyLexer
import VideoUploader.PyProgram
import VideoUploader.PyEval
import VideoUploader.VideoTitle
import VideoUploader.WordpressPoster
import VideoUploader.PosterRun
import VideoUploader.PosterSite
import VideoUploader.PostLinks
import VideoUploader.ImageUrl
import VideoUploader.DownloadLoop
import VideoUploader.ImageSelector
import VideoUploader.SelectorRuns
import VideoUploader.VideoFolder
import VideoUploader.FolderRuns
import VideoUploader.FolderContents
import VideoUploader.Expansion
import VideoUploader.TitleImages
import VideoUploader.ShellSelector
import VideoUploader.ShellSelection
import VideoUploader.BuildApi
import VideoUploader.HtmlMarkup
import VideoUploader.ImgSearch
import VideoUploader.Uploader
